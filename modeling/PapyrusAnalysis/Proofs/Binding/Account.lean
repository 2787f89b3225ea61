import PapyrusAnalysis.Proofs.Binding.Answers

/-!
# The account that binding gives

Every diagnostic of binding is about one declaration: that it has no name, or that another one has
its name in the container that keeps it. Which declarations these are can be seen from the symbols
alone. So the report of binding is what its symbols give rise to, in their order, and no diagnostic
is missing or comes twice. Nothing is asked of the tree.

## Main definitions

* `Binding.complaint?`: the diagnostic that a symbol gives rise to.
* `Binding.Accounted`: the report says what the symbols give rise to.
-/

namespace PapyrusAnalysis

namespace Binding

variable {t : Tree} {symbols symbols' : SymbolTable} {id : SymbolId} {kind : SymbolKind}
  {node identifier container : NodeId} {parent : Option SymbolId} {name : String} {b b' : Binding}

/-! ## Complaints -/

/-- The symbol that has the name of a declaration where it is kept. -/
def holder? (t : Tree) (symbols : SymbolTable) (kind : SymbolKind) (node : NodeId)
    (name : String) : Option SymbolId :=
  (place? t kind node).bind fun place =>
    (symbols.names place.1 place.2).find? (Text.lowercase name)

/-- The diagnostic that a declaration with some name gives rise to, if its symbol is `id`. -/
def reproach? (t : Tree) (symbols : SymbolTable) (id : SymbolId) (kind : SymbolKind)
    (node : NodeId) (name : String) : Option Diagnostic :=
  if name.isEmpty then lack? t node
  else if (holder? t symbols kind node name).all (· = id) then none
  else refusal? t node name

/-- The diagnostic that a symbol gives rise to. -/
def complaint? (t : Tree) (symbols : SymbolTable) (id : SymbolId) : Option Diagnostic :=
  (symbols.get? id).bind fun symbol => symbol.declaration.bind fun node =>
    (t.declaration? node).bind fun declared =>
      reproach? t symbols id declared.1 node (t.nameAt declared.2)

theorem complaint?_eq (declared : DeclaredAt symbols id node)
    (hd : t.declaration? node = some (kind, identifier)) :
    complaint? t symbols id = reproach? t symbols id kind node (t.nameAt identifier) := by
  obtain ⟨symbol, hs, hnode⟩ := declared
  simp [complaint?, hs, hnode, hd]

/-- The name of a declaration is in the table that keeps it. If another symbol has it there, then
this can be reported. -/
def Held (t : Tree) (symbols : SymbolTable) (id : SymbolId) (node : NodeId) : Prop :=
  ∀ ⦃kind identifier place⦄, t.declaration? node = some (kind, identifier) →
    (t.nameAt identifier).isEmpty = false → place? t kind node = some place →
    ∃ holder, (symbols.names place.1 place.2).find? (Text.lowercase (t.nameAt identifier)) =
      some holder ∧ (holder = id ∨ ∃ d, refusal? t node (t.nameAt identifier) = some d)

theorem Held.grows {free : SymbolId → Prop} (h : Held t symbols id node)
    (g : Grows free symbols symbols') : Held t symbols' id node := by
  intro kind identifier place hd named hplace
  obtain ⟨holder, found, reason⟩ := h hd named hplace
  exact ⟨holder, g.entries found, reason⟩

/-- What a symbol gives rise to does not change once its name is held. -/
theorem complaint?_grows {free : SymbolId → Prop} (g : Grows free symbols symbols')
    (declared : DeclaredAt symbols id node) (held : Held t symbols id node) :
    complaint? t symbols' id = complaint? t symbols id := by
  cases hd : t.declaration? node with
  | none =>
    obtain ⟨symbol, hs, hnode⟩ := declared
    obtain ⟨symbol', hs', retains, -⟩ := g.kept hs
    simp [complaint?, hs, hs', retains.declaration, hnode, hd]
  | some found =>
    obtain ⟨kind, identifier⟩ := found
    rw [complaint?_eq declared hd, complaint?_eq (declared.grows g) hd, reproach?, reproach?]
    cases named : (t.nameAt identifier).isEmpty with
    | true => rfl
    | false =>
      have same : holder? t symbols' kind node (t.nameAt identifier) =
          holder? t symbols kind node (t.nameAt identifier) := by
        rw [holder?, holder?]
        cases hplace : place? t kind node with
        | none => rfl
        | some place =>
          obtain ⟨holder, found, -⟩ := held hd named hplace
          exact (g.entries found).trans found.symm
      rw [same]

/-! ## The account -/

/-- What stands in a table is found there under its own name. -/
def Filed (symbols : SymbolTable) : Prop :=
  ∀ ⦃table container id⦄, id ∈ (symbols.names table container).values →
    ∃ symbol, symbols.get? id = some symbol ∧
      (symbols.names table container).find? (Text.lowercase symbol.name) = some id

theorem Filed.grows {free : SymbolId → Prop} (h : Filed symbols) (g : Grows free symbols symbols')
    (names : symbols'.names = symbols.names) : Filed symbols' := by
  intro table container id hid
  rw [names] at hid ⊢
  obtain ⟨symbol, hs, found⟩ := h hid
  obtain ⟨symbol', hs', retains, -⟩ := g.kept hs
  exact ⟨symbol', hs', by rwa [retains.name]⟩

theorem Filed.enter {table : TableKind} {symbol : Symbol} (h : Filed symbols)
    (vacant : (symbols.names table container).contains (Text.lowercase name) = false)
    (hs : symbols.get? id = some symbol) (hname : symbol.name = name) :
    Filed (symbols.enter table container name id) := by
  intro table' container' other ho
  rw [SymbolTable.names_enter] at ho ⊢
  split at ho
  · rename_i same
    cases same
    rw [if_pos rfl]
    rcases Registry.mem_values_insert ho with rfl | before
    · refine ⟨symbol, hs, ?_⟩
      rw [hname, Registry.find?_insert, if_pos rfl]
    · obtain ⟨symbol', hs', found⟩ := h before
      refine ⟨symbol', hs', ?_⟩
      rw [Registry.find?_insert, if_neg]
      · exact found
      · intro same
        rw [Registry.contains, same, found] at vacant
        cases vacant
  · rename_i different
    rw [if_neg different]
    exact h ho

/-- The report says what the symbols give rise to, in their order. The names of all symbols are in
their tables, and what stands in a table is found there under its own name. -/
structure Accounted (t : Tree) (b : Binding) : Prop where
  report : b.report = b.symbols.ids.filterMap (complaint? t b.symbols)
  declared : ∀ {id}, b.symbols.owns id → ∃ node, DeclaredAt b.symbols id node ∧
    Held t b.symbols id node
  filed : Filed b.symbols

theorem accounted_empty (t : Tree) : Accounted t {} where
  report := rfl
  declared {id} h := by simp [SymbolTable.owns, SymbolTable.size] at h
  filed _ _ _ h := by cases h

/-- Nothing changes in what the symbols that are there give rise to. -/
theorem Accounted.filterMap_complaint {free : SymbolId → Prop} (h : Accounted t b)
    (g : Grows free b.symbols symbols') :
    b.symbols.ids.filterMap (complaint? t symbols') = b.report := by
  rw [h.report]
  refine List.filterMap_congr fun id hid => ?_
  obtain ⟨node, declared, held⟩ := h.declared (SymbolTable.mem_ids.1 hid)
  exact complaint?_grows g declared held

/-- A step that makes no symbol and enters no name changes nothing in the account. -/
theorem Accounted.keep (h : Accounted t b) (g : Grows (fun _ => True) b.symbols symbols')
    (size : symbols'.size = b.symbols.size) (names : symbols'.names = b.symbols.names) :
    Accounted t ⟨symbols', b.report⟩ where
  report := by
    rw [← h.filterMap_complaint g]
    simp only [SymbolTable.ids, size, g.base]
  declared {id} owned := by
    have before : b.symbols.owns id := by rwa [SymbolTable.owns, g.base, size] at owned
    obtain ⟨node, declared, held⟩ := h.declared before
    exact ⟨node, declared.grows g, held.grows g⟩
  filed := h.filed.grows g names

theorem ids_create (kind : SymbolKind) (name : String) (parent : Option SymbolId) (node : NodeId) :
    (symbols.create kind name parent node).ids = symbols.ids ++ [symbols.next] := by
  simp [SymbolTable.ids, List.range_succ, SymbolTable.next]

theorem Makes.ids {name : String} (h : Makes t kind node name parent b b') :
    b'.symbols.ids = b.symbols.ids ++ [b.symbols.next] := by
  cases h with
  | nameless _ _ => exact ids_create _ _ _ _
  | unkept _ _ => exact ids_create _ _ _ _
  | entered _ _ _ => exact ids_create kind name parent node
  | refused _ _ _ _ => exact ids_create _ _ _ _

/-- A step that makes a symbol keeps the account if it reports what the symbol gives rise to. -/
theorem Accounted.extend {more : Report} (h : Accounted t b)
    (g : Grows (fun _ => True) b.symbols symbols')
    (ids : symbols'.ids = b.symbols.ids ++ [b.symbols.next])
    (declared : DeclaredAt symbols' b.symbols.next node)
    (held : Held t symbols' b.symbols.next node) (filed : Filed symbols')
    (complains : (complaint? t symbols' b.symbols.next).toList = more) :
    Accounted t ⟨symbols', b.report ++ more⟩ where
  report := by
    rw [ids, List.filterMap_append, h.filterMap_complaint g, ← complains]
    cases hc : complaint? t symbols' b.symbols.next <;> simp [hc]
  declared {id} owned := by
    rw [← SymbolTable.mem_ids, ids, List.mem_append, List.mem_singleton] at owned
    rcases owned with old | rfl
    · obtain ⟨node, declared, held⟩ := h.declared (SymbolTable.mem_ids.1 old)
      exact ⟨node, declared.grows g, held.grows g⟩
    · exact ⟨node, declared, held⟩
  filed := filed

/-- A declaration keeps the account. -/
theorem Accounted.makes (h : Accounted t b) (hd : t.declaration? node = some (kind, identifier))
    (makes : Makes t kind node (t.nameAt identifier) parent b b') : Accounted t b' := by
  have created (name : String) : (b.symbols.create kind name parent node).get? b.symbols.next =
      some { b.symbols.fresh kind name parent with declaration := some node } := by
    rw [SymbolTable.get?_create, if_pos rfl]
  have declared (name : String) :
      DeclaredAt (b.symbols.create kind name parent node) b.symbols.next node :=
    ⟨_, created name, rfl⟩
  have g (name : String) : Grows (fun _ => True) b.symbols
      (b.symbols.create kind name parent node) := grows_create _ _ _ _ _
  have filed (name : String) : Filed (b.symbols.create kind name parent node) :=
    h.filed.grows (g name) (by funext table container; simp)
  have ids := makes.ids
  cases makes with
  | nameless empty complains =>
    refine h.extend (g _) ids (declared _) ?_ (filed _) ?_
    · intro kind' identifier' place hd' named
      cases hd.symm.trans hd'
      cases empty.symm.trans named
    · rw [complaint?_eq (declared _) hd, reproach?, if_pos empty, complains]
      rfl
  | unkept named nowhere =>
    rw [← List.append_nil b.report]
    refine h.extend (g _) ids (declared _) ?_ (filed _) ?_
    · intro kind' identifier' place hd' _ hplace
      cases hd.symm.trans hd'
      cases nowhere.symm.trans hplace
    · rw [complaint?_eq (declared _) hd]
      simp [reproach?, named, holder?, nowhere]
  | @entered place named kept vacant =>
    have free? : ((b.symbols.create kind (t.nameAt identifier) parent node).names place.1
        place.2).contains (Text.lowercase (t.nameAt identifier)) = false := by
      rwa [SymbolTable.names_create]
    have declared' : DeclaredAt ((b.symbols.create kind (t.nameAt identifier) parent node).enter
        place.1 place.2 (t.nameAt identifier) b.symbols.next) b.symbols.next node := declared _
    have found : (((b.symbols.create kind (t.nameAt identifier) parent node).enter place.1 place.2
        (t.nameAt identifier) b.symbols.next).names place.1 place.2).find?
          (Text.lowercase (t.nameAt identifier)) = some b.symbols.next := by
      rw [SymbolTable.names_enter, if_pos rfl, Registry.find?_insert, if_pos rfl]
    rw [← List.append_nil b.report]
    refine h.extend ((g _).trans (grows_enter free?)) ids declared' ?_
      ((filed _).enter free? (created _) rfl) ?_
    · intro kind' identifier' place' hd' _ hplace
      cases hd.symm.trans hd'
      cases kept.symm.trans hplace
      exact ⟨_, found, .inl rfl⟩
    · rw [complaint?_eq declared' hd]
      simp [reproach?, named, holder?, kept, found]
  | @refused place holder d named kept taken complains =>
    refine h.extend (g _) ids (declared _) ?_ (filed _) ?_
    · intro kind' identifier' place' hd' _ hplace
      cases hd.symm.trans hd'
      cases kept.symm.trans hplace
      exact ⟨holder, by rwa [SymbolTable.names_create], .inr ⟨d, complains⟩⟩
    · -- The holder was there before, so it is not the new symbol.
      have other : holder ≠ b.symbols.next := by
        rintro rfl
        obtain ⟨symbol, hs, -⟩ := h.filed (Registry.mem_values_of_find? taken)
        rw [SymbolTable.get?_next] at hs
        cases hs
      rw [complaint?_eq (declared _) hd]
      simp [reproach?, named, holder?, kept, taken, other, complains]

theorem steps_accounted (t : Tree) : Steps t (Accounted t) where
  makes _ kept hd makes := kept.makes hd makes
  change id f kept retains := by
    refine kept.keep (grows_update trivial fun symbol _ => retains symbol) (by simp) ?_
    funext table container
    simp
  register name id kept := by
    refine kept.keep (grows_register name id) ?_ ?_ <;>
      unfold SymbolTable.registerScript <;> split <;> rfl

/-- Binding a tree reports what its symbols give rise to, in their order, and nothing else. -/
theorem ofTree_accounted (bound : ofTree t = .ok b) : Accounted t b :=
  ((steps_accounted t).ofTree (accounted_empty t) bound).2

/-! ## Refused names -/

theorem fill_cannotRedeclare (name : String) :
    fill Message.cannotRedeclare.template [name] = "Cannot redeclare " ++ name ++ "." := by
  apply String.toList_injective
  simp [fill, fillFrom, Text.replaceAll, Message.cannotRedeclare, placeholder, Text.replaceFrom]

theorem text_of_refusal {d : Diagnostic} (h : refusal? t node name = some d) :
    d.text = "Cannot redeclare " ++ name ++ "." := by
  obtain ⟨n, -, about⟩ := Option.bind_eq_some_iff.1 h
  rcases about_eq n.range .cannotRedeclare [name] with ⟨d', hd', -⟩ | ⟨he, -⟩
  · rw [hd'] at about
    cases about
    obtain ⟨span, -, made⟩ := exists_of_bind_eq_ok hd'
    cases made
    exact fill_cannotRedeclare name
  · rw [he] at about
    cases about

/-- A symbol gives rise to the complaint that a name cannot be declared again. -/
def Refused (t : Tree) (symbols : SymbolTable) (id : SymbolId) (name : String) : Prop :=
  ∃ d, complaint? t symbols id = some d ∧ d.text = "Cannot redeclare " ++ name ++ "."

/-- A name is refused if and only if another symbol has it where it is kept. -/
theorem Accounted.refused_iff {place : TableKind × NodeId} (h : Accounted t b)
    (declared : DeclaredAt b.symbols id node) (hd : t.declaration? node = some (kind, identifier))
    (named : (t.nameAt identifier).isEmpty = false) (kept : place? t kind node = some place) :
    Refused t b.symbols id (t.nameAt identifier) ↔
      (b.symbols.names place.1 place.2).find? (Text.lowercase (t.nameAt identifier)) ≠ some id := by
  obtain ⟨symbol, hs, hnode⟩ := declared
  obtain ⟨node', ⟨symbol', hs', hnode'⟩, held⟩ := h.declared (SymbolTable.owns_of_get? hs)
  cases hs.symm.trans hs'
  cases hnode.symm.trans hnode'
  obtain ⟨holder, found, reason⟩ := held hd named kept
  have complains : complaint? t b.symbols id =
      if holder = id then none else refusal? t node (t.nameAt identifier) := by
    rw [complaint?_eq ⟨symbol, hs, hnode⟩ hd]
    simp [reproach?, named, holder?, kept, found]
  rw [Refused, complains, found]
  by_cases same : holder = id
  · simp [same]
  · obtain ⟨d, refusal⟩ := reason.resolve_left same
    simp [same, refusal, text_of_refusal refusal]

end Binding

end PapyrusAnalysis
