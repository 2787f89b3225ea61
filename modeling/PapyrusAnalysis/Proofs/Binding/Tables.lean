import Mathlib.Data.List.Nodup
import PapyrusAnalysis.Proofs.Binding.Account
import PapyrusAnalysis.Proofs.Tree.Descent

/-!
# The tables of names

Three kinds of tables keep the names of declarations: the locals of a container that is no script,
and the states and custom events of a script. A declaration seeks a place in the table of the
innermost container that keeps names of its kind, under its name in lower case. The first one that
seeks a place gets it, and the others are reported. So the entries of the tables and the reports add
up to the declarations that seek a place.

## Main definitions

* `SymbolTable.allEntries`: all entries of all tables.
* `Binding.DeclaredFor`: a declaration seeks a place in a table.
* `Binding.Tabulates`: what the tables hold and how many names were refused.

## Main statements

* `Binding.ofTree_tabulates`: binding a tree fills its tables in this way.
-/

namespace PapyrusAnalysis

/-! ## Entries -/

namespace Registry

variable {κ μ ν : Type}

/-- The entries of the registries that a registry holds, with both keys. -/
def inner (r : Registry κ (Registry μ ν)) : List ((κ × μ) × ν) :=
  r.entries.flatMap fun outer => outer.2.entries.map fun entry => ((outer.1, entry.1), entry.2)

variable [DecidableEq κ] [DecidableEq μ]

/-- What is entered under a new key of a registry within another one is one more entry. -/
theorem inner_insert {r : Registry κ (Registry μ ν)} {outer : κ} {key : μ} (value : ν)
    (vacant : ((r.find? outer).getD ∅).contains key = false) :
    (r.insert outer (((r.find? outer).getD ∅).insert key value)).inner.Perm
      (((outer, key), value) :: r.inner) := by
  obtain ⟨entries⟩ := r
  simp only [find?, insert, inner] at vacant ⊢
  induction entries with
  | nil => rfl
  | cons entry rest ih =>
    obtain ⟨k, names⟩ := entry
    by_cases same : k = outer
    · subst same
      simp only [findIn, insertIn, if_true, Option.getD_some] at vacant ⊢
      have last : insertIn key value names.entries = names.entries ++ [(key, value)] :=
        entries_insert vacant value
      rw [List.flatMap_cons, List.flatMap_cons, last, List.map_append, List.append_assoc]
      exact List.perm_middle
    · simp only [findIn, insertIn, if_neg same] at vacant ⊢
      rw [List.flatMap_cons, List.flatMap_cons]
      exact ((ih vacant).append_left _).trans List.perm_middle

theorem mem_inner_of_find? {r : Registry κ (Registry μ ν)} {outer : κ} {key : μ} {value : ν}
    (h : ((r.find? outer).getD ∅).find? key = some value) : ((outer, key), value) ∈ r.inner := by
  cases found : r.find? outer with
  | none =>
    rw [found] at h
    cases h
  | some names =>
    rw [found] at h
    exact List.mem_flatMap.2 ⟨_, mem_entries_of_find? found,
      List.mem_map.2 ⟨_, mem_entries_of_find? h, rfl⟩⟩

omit [DecidableEq μ] in
/-- Each registry within another one has its keys once if all entries have different keys. -/
theorem nodup_keys_of_inner {r : Registry κ (Registry μ ν)} (distinct : (r.inner.map (·.1)).Nodup)
    {outer : κ} : ((r.find? outer).getD ∅).keys.Nodup := by
  cases found : r.find? outer with
  | none => exact .nil
  | some names =>
    have part : (names.entries.map fun entry => ((outer, entry.1), entry.2)).Sublist r.inner := by
      rw [inner, List.flatMap_def]
      exact List.sublist_flatten_of_mem (List.mem_map_of_mem (mem_entries_of_find? found))
    have keys := distinct.sublist (part.map (·.1))
    rw [List.map_map] at keys
    refine List.Nodup.of_map (fun key => (outer, key)) ?_
    rwa [Option.getD_some, Registry.keys, List.map_map]

end Registry

namespace SymbolTable

variable {symbols : SymbolTable}

/-- All entries of all tables: the table with its container and the key, and the symbol. -/
def allEntries (symbols : SymbolTable) : List (((TableKind × NodeId) × String) × SymbolId) :=
  symbols.tables.inner

theorem allEntries_create (kind : SymbolKind) (name : String) (parent : Option SymbolId)
    (node : NodeId) : (symbols.create kind name parent node).allEntries = symbols.allEntries :=
  congrArg Registry.inner (tables_update _ _ _)

theorem allEntries_enter {place : TableKind × NodeId} {name : String} (id : SymbolId)
    (vacant : (symbols.names place.1 place.2).contains (Text.lowercase name) = false) :
    (symbols.enter place.1 place.2 name id).allEntries.Perm
      (((place, Text.lowercase name), id) :: symbols.allEntries) :=
  Registry.inner_insert id vacant

theorem mem_allEntries_of_find? {place : TableKind × NodeId} {key : String} {id : SymbolId}
    (h : (symbols.names place.1 place.2).find? key = some id) :
    ((place, key), id) ∈ symbols.allEntries :=
  Registry.mem_inner_of_find? h

end SymbolTable

/-! ## Places that are sought -/

namespace Binding

variable {t : Tree} {b b' : Binding} {symbols symbols' : SymbolTable} {id other : SymbolId}
  {kind : SymbolKind} {node identifier : NodeId} {parent : Option SymbolId} {symbol : Symbol}
  {place : TableKind × NodeId} {slot : (TableKind × NodeId) × String} {key : String}
  {free : SymbolId → Prop}

/-- A symbol was made for a declaration with a name, and the innermost container that keeps names of
its kind has a place for it. -/
def DeclaredFor (t : Tree) (symbols : SymbolTable) (place : TableKind × NodeId) (key : String)
    (id : SymbolId) : Prop :=
  ∃ symbol node identifier, symbols.get? id = some symbol ∧ symbol.declaration = some node ∧
    t.declaration? node = some (symbol.kind, identifier) ∧
    (t.nameAt identifier).isEmpty = false ∧ symbol.name = t.nameAt identifier ∧
    key = Text.lowercase symbol.name ∧ tableOf symbol.kind = some place.1 ∧
    t.Innermost (keeps place.1) node place.2

/-- The place that a symbol seeks. -/
def sought? (t : Tree) (symbols : SymbolTable) (id : SymbolId) :
    Option ((TableKind × NodeId) × String) :=
  (symbols.get? id).bind fun symbol => symbol.declaration.bind fun node =>
    (t.declaration? node).bind fun declared =>
      if (t.nameAt declared.2).isEmpty then none
      else (place? t declared.1 node).map (·, Text.lowercase (t.nameAt declared.2))

theorem sought?_eq (declared : DeclaredAt symbols id node)
    (hd : t.declaration? node = some (kind, identifier)) :
    sought? t symbols id = if (t.nameAt identifier).isEmpty then none
      else (place? t kind node).map (·, Text.lowercase (t.nameAt identifier)) := by
  obtain ⟨symbol, hs, hnode⟩ := declared
  simp [sought?, hs, hnode, hd]

theorem place?_eq_some_iff (grown : t.Grown) (hd : t.declaration? node = some (kind, identifier)) :
    place? t kind node = some place ↔
      tableOf kind = some place.1 ∧ t.Innermost (keeps place.1) node place.2 := by
  obtain ⟨n, hn⟩ := Tree.node?_of_declaration? hd
  have keeper (table : TableKind) : keeper? t table node =
      .ok ((t.outward node).find? fun a => (t.node? a).any (keeps table ·.form)) := by
    rw [keeper?, Tree.ancestors_eq (Tree.formAt_eq hn)]
    rfl
  rw [grown.innermost_iff]
  constructor
  · intro h
    obtain ⟨table, kept⟩ := keeper_of_place? h
    exact ⟨table, Except.ok.inj ((keeper _).symm.trans kept)⟩
  · rintro ⟨table, kept⟩
    rw [place?_of_keeper table (keeper place.1), kept]
    rfl

theorem sought?_eq_some_iff (grown : t.Grown) (sound : Sound t symbols) :
    sought? t symbols id = some (place, key) ↔ DeclaredFor t symbols place key id := by
  constructor
  · intro h
    obtain ⟨symbol, hs, h⟩ := Option.bind_eq_some_iff.1 h
    obtain ⟨node, hnode, h⟩ := Option.bind_eq_some_iff.1 h
    obtain ⟨node', identifier, hnode', hd, hname⟩ := (sound.fits hs).declared
    cases hnode.symm.trans hnode'
    rw [hd, Option.bind_some] at h
    dsimp only at h
    split at h
    · cases h
    · rename_i named
      obtain ⟨place', kept, same⟩ := Option.map_eq_some_iff.1 h
      cases same
      rw [title, if_neg named] at hname
      obtain ⟨table, innermost⟩ := (place?_eq_some_iff grown hd).1 kept
      exact ⟨symbol, node, identifier, hs, hnode, hd, Bool.eq_false_iff.2 named, hname,
        by rw [hname], table, innermost⟩
  · rintro ⟨symbol, node, identifier, hs, hnode, hd, named, hname, rfl, table, innermost⟩
    rw [sought?_eq ⟨symbol, hs, hnode⟩ hd, named,
      (place?_eq_some_iff grown hd).2 ⟨table, innermost⟩, hname]
    rfl

theorem owns_of_sought? (h : sought? t symbols id = some slot) : symbols.owns id := by
  obtain ⟨symbol, hs, -⟩ := Option.bind_eq_some_iff.1 h
  exact SymbolTable.owns_of_get? hs

theorem sought?_grows (g : Grows free symbols symbols') (owned : symbols.owns id) :
    sought? t symbols' id = sought? t symbols id := by
  obtain ⟨symbol, hs⟩ := SymbolTable.owns_iff.1 owned
  obtain ⟨symbol', hs', retains, -⟩ := g.kept hs
  rw [sought?, sought?, hs, hs', Option.bind_some, Option.bind_some, retains.declaration]

/-- A symbol that seeks a place did so before, or comes after all that were there. -/
theorem sought?_cases (g : Grows free symbols symbols') (h : sought? t symbols' other = some slot) :
    sought? t symbols other = some slot ∨ symbols.next.index ≤ other.index := by
  by_cases owned : symbols.owns other
  · exact .inl (sought?_grows g owned ▸ h)
  · have owned' := owns_of_sought? h
    simp only [SymbolTable.owns, Bool.and_eq_true, decide_eq_true_eq, g.base] at owned owned'
    refine .inr ?_
    simp only [SymbolTable.next]
    omega

theorem index_lt_next (owned : symbols.owns id) : id.index < symbols.next.index := by
  simp only [SymbolTable.owns, Bool.and_eq_true, decide_eq_true_eq] at owned
  exact owned.2

/-- A place that is sought is held by some symbol. -/
theorem Accounted.holder_of_sought (h : Accounted t b) (hc : sought? t b.symbols id = some slot) :
    ∃ holder, (b.symbols.names slot.1.1 slot.1.2).find? slot.2 = some holder := by
  obtain ⟨node, declared, held⟩ := h.declared (owns_of_sought? hc)
  obtain ⟨symbol, hs, hnode⟩ := declared
  simp only [sought?, hs, hnode, Option.bind_some] at hc
  obtain ⟨⟨kind, identifier⟩, hd, hc⟩ := Option.bind_eq_some_iff.1 hc
  dsimp only at hc
  split at hc
  · cases hc
  · rename_i named
    obtain ⟨place, kept, rfl⟩ := Option.map_eq_some_iff.1 hc
    obtain ⟨holder, found, -⟩ := held hd (Bool.eq_false_iff.2 named) kept
    exact ⟨holder, found⟩

/-! ## What the tables hold -/

/-- Whether a diagnostic says that a name cannot be declared again. -/
def isRefusal (d : Diagnostic) : Bool := d.code = Message.cannotRedeclare.code

theorem isRefusal_of_refusal {d : Diagnostic} {name : String} (h : refusal? t node name = some d) :
    isRefusal d = true := by
  obtain ⟨n, -, about⟩ := Option.bind_eq_some_iff.1 h
  obtain ⟨span, rfl⟩ := exists_eq_plain about
  simp [isRefusal, Diagnostic.plain]

theorem isRefusal_of_lack {d : Diagnostic} (h : lack? t node = some d) : isRefusal d = false := by
  obtain ⟨n, -, about⟩ := Option.bind_eq_some_iff.1 h
  obtain ⟨span, rfl⟩ := exists_eq_plain about
  have unlike : Message.identifierExpected.code ≠ Message.cannotRedeclare.code := by decide
  exact decide_eq_false unlike

/-- The number of symbols that seek a place. -/
def seekerCount (t : Tree) (symbols : SymbolTable) : Nat :=
  symbols.ids.countP fun id => (sought? t symbols id).isSome

theorem countP_seekers (g : Grows free symbols symbols') :
    symbols.ids.countP (fun id => (sought? t symbols' id).isSome) = seekerCount t symbols := by
  refine List.countP_congr fun id hid => ?_
  rw [sought?_grows g (SymbolTable.mem_ids.1 hid)]

/-- Every entry belongs to the first symbol that seeks its place, and the others were refused. -/
structure Tabled (t : Tree) (b : Binding) : Prop where
  sought : ∀ entry ∈ b.symbols.allEntries, sought? t b.symbols entry.2 = some entry.1
  first : ∀ entry ∈ b.symbols.allEntries, ∀ other, sought? t b.symbols other = some entry.1 →
    entry.2.index ≤ other.index
  distinct : (b.symbols.allEntries.map (·.1)).Nodup
  tally : b.report.countP isRefusal + b.symbols.allEntries.length = seekerCount t b.symbols

theorem tabled_empty (t : Tree) : Tabled t {} where
  sought _ h := by cases h
  first _ h := by cases h
  distinct := .nil
  tally := rfl

namespace Tabled

variable (h : Tabled t b) (g : Grows free b.symbols b'.symbols)

include h g

theorem sought_grows : ∀ entry ∈ b.symbols.allEntries,
    sought? t b'.symbols entry.2 = some entry.1 := by
  intro entry he
  have before := h.sought entry he
  exact (sought?_grows g (owns_of_sought? before)).trans before

theorem first_grows : ∀ entry ∈ b.symbols.allEntries, ∀ other,
    sought? t b'.symbols other = some entry.1 → entry.2.index ≤ other.index := by
  intro entry he other hc
  rcases sought?_cases g hc with before | later
  · exact h.first entry he other before
  · exact Nat.le_of_lt (Nat.lt_of_lt_of_le
      (index_lt_next (owns_of_sought? (h.sought entry he))) later)

/-- A step that enters no name keeps what the tables hold. -/
theorem keep (entries : b'.symbols.allEntries = b.symbols.allEntries)
    (tally : b'.report.countP isRefusal + b.symbols.allEntries.length = seekerCount t b'.symbols) :
    Tabled t b' where
  sought := by
    rw [entries]
    exact h.sought_grows g
  first := by
    rw [entries]
    exact h.first_grows g
  distinct := by
    rw [entries]
    exact h.distinct
  tally := by
    rw [entries]
    exact tally

/-- A step that makes no symbol and enters no name keeps what the tables hold. -/
theorem unchanged (entries : b'.symbols.allEntries = b.symbols.allEntries)
    (size : b'.symbols.size = b.symbols.size) (report : b'.report = b.report) : Tabled t b' := by
  refine h.keep g entries ?_
  have ids : b'.symbols.ids = b.symbols.ids := by simp only [SymbolTable.ids, size, g.base]
  have count : seekerCount t b'.symbols = seekerCount t b.symbols := by
    rw [seekerCount, ids, countP_seekers g]
  rw [report, count, h.tally]

/-- A step that enters the name of a new symbol gives it a place that nothing sought. -/
theorem enter
    (entries : b'.symbols.allEntries.Perm ((slot, b.symbols.next) :: b.symbols.allEntries))
    (own : sought? t b'.symbols b.symbols.next = some slot)
    (unsought : ∀ other, sought? t b.symbols other ≠ some slot)
    (tally : b'.report.countP isRefusal + b.symbols.allEntries.length + 1 =
      seekerCount t b'.symbols) : Tabled t b' where
  sought entry he := by
    rcases List.mem_cons.1 (entries.mem_iff.1 he) with rfl | before
    · exact own
    · exact h.sought_grows g entry before
  first entry he other hc := by
    rcases List.mem_cons.1 (entries.mem_iff.1 he) with rfl | before
    · exact (sought?_cases g hc).resolve_left (unsought other)
    · exact h.first_grows g entry before other hc
  distinct := by
    refine (entries.map _).nodup_iff.2 (List.nodup_cons.2 ⟨fun taken => ?_, h.distinct⟩)
    obtain ⟨entry, before, same⟩ := List.mem_map.1 taken
    exact unsought entry.2 ((h.sought entry before).trans (congrArg some same))
  tally := by
    rw [entries.length_eq, List.length_cons]
    exact tally

end Tabled

/-- A declaration adds at most one symbol that seeks a place. -/
theorem Makes.seekerCount_eq {name : String} (h : Makes t kind node name parent b b') :
    seekerCount t b'.symbols =
      seekerCount t b.symbols + (sought? t b'.symbols b.symbols.next).toList.length := by
  have g : Grows (fun _ => True) b.symbols b'.symbols := h.grows
  rw [seekerCount, h.ids, List.countP_append, countP_seekers g]
  cases own : sought? t b'.symbols b.symbols.next <;> simp [own]

/-- A declaration keeps what the tables hold in order. -/
theorem Tabled.makes (h : Tabled t b) (accounted : Accounted t b)
    (hd : t.declaration? node = some (kind, identifier))
    (makes : Makes t kind node (t.nameAt identifier) parent b b') : Tabled t b' := by
  have own : sought? t b'.symbols b.symbols.next = if (t.nameAt identifier).isEmpty then none
      else (place? t kind node).map (·, Text.lowercase (t.nameAt identifier)) :=
    sought?_eq ⟨_, makes.get?_next, rfl⟩ hd
  have count := makes.seekerCount_eq
  have g : Grows (fun _ => True) b.symbols b'.symbols := makes.grows
  have tally := h.tally
  cases makes with
  | nameless empty complains =>
    refine h.keep g (SymbolTable.allEntries_create _ _ _ _) ?_
    simp only [own, empty, if_true, Option.toList_none, List.length_nil] at count
    simpa [count, isRefusal_of_lack complains] using tally
  | unkept named nowhere =>
    refine h.keep g (SymbolTable.allEntries_create _ _ _ _) ?_
    simp only [own, named, nowhere] at count
    simpa [count] using tally
  | @entered place named kept vacant =>
    rw [named, kept] at own
    refine h.enter g ((SymbolTable.allEntries_enter _ ?_).trans ?_) own ?_ ?_
    · rwa [SymbolTable.names_create]
    · rw [SymbolTable.allEntries_create]
    · intro other hc
      obtain ⟨holder, found⟩ := accounted.holder_of_sought hc
      rw [Registry.contains, found] at vacant
      cases vacant
    · rw [count, own, tally]
      rfl
  | @refused place holder d named kept taken complains =>
    refine h.keep g (SymbolTable.allEntries_create _ _ _ _) ?_
    have refusals : (b.report ++ [d]).countP isRefusal = b.report.countP isRefusal + 1 := by
      simp [isRefusal_of_refusal complains]
    rw [named, kept] at own
    rw [count, own, ← tally, refusals]
    exact Nat.add_right_comm _ _ _

theorem steps_tabled (t : Tree) : Steps t fun b => Accounted t b ∧ Tabled t b where
  makes sound kept hd makes :=
    ⟨(steps_accounted t).makes sound kept.1 hd makes, kept.2.makes kept.1 hd makes⟩
  change {b} id f kept retains := by
    have g : Grows (fun _ => True) b.symbols (b.symbols.update id f) :=
      grows_update trivial fun symbol _ => retains symbol
    exact ⟨(steps_accounted t).change id kept.1 retains, kept.2.unchanged g
      (congrArg Registry.inner (SymbolTable.tables_update _ _ _))
      (SymbolTable.size_update _ _ _) rfl⟩
  register {b} name id kept := by
    have g : Grows (fun _ => True) b.symbols (b.symbols.registerScript name id) :=
      grows_register name id
    refine ⟨(steps_accounted t).register name id kept.1, kept.2.unchanged g ?_ ?_ rfl⟩ <;>
      unfold SymbolTable.registerScript <;> split <;> rfl

/-! ## Binding a tree -/

/-- No container keeps a symbol twice, since each stands under its own name. -/
theorem nodup_values_ofTree (bound : ofTree t = .ok b) (table : TableKind) (container : NodeId) :
    (b.symbols.names table container).values.Nodup := by
  obtain ⟨sound, -, tabled⟩ := (steps_tabled t).ofTree ⟨accounted_empty t, tabled_empty t⟩ bound
  have keys : (b.symbols.names table container).keys.Nodup :=
    Registry.nodup_keys_of_inner tabled.distinct
  refine List.Nodup.map_on ?_ (List.Nodup.of_map _ keys)
  rintro ⟨key, id⟩ h ⟨key', _⟩ h' rfl
  obtain ⟨symbol, hs, rfl⟩ := sound.entries (Registry.find?_of_mem keys h)
  obtain ⟨symbol', hs', rfl⟩ := sound.entries (Registry.find?_of_mem keys h')
  cases hs.symm.trans hs'
  rfl

/-- What the tables hold after binding, and how many names were refused. -/
structure Tabulates (t : Tree) (b : Binding) : Prop where
  declared : ∀ {place key id}, ((place, key), id) ∈ b.symbols.allEntries →
    DeclaredFor t b.symbols place key id
  earliest : ∀ {place key id}, ((place, key), id) ∈ b.symbols.allEntries →
    ∀ other, DeclaredFor t b.symbols place key other → id.index ≤ other.index
  excluded : ∀ {id symbol node identifier}, b.symbols.get? id = some symbol →
    symbol.declaration = some node → t.declaration? node = some (symbol.kind, identifier) →
    symbol.kind = .event ∨ (t.nameAt identifier).isEmpty → ∀ slot, (slot, id) ∉ b.symbols.allEntries
  /-- The tables are looked up by container and key, and each place is there once. -/
  found : ∀ {place key id}, ((place, key), id) ∈ b.symbols.allEntries ↔
    (b.symbols.names place.1 place.2).find? key = some id
  distinct : (b.symbols.allEntries.map (·.1)).Nodup
  /-- Of the symbols that seek a place, some were refused and the others stand in the tables. -/
  counted : ∃ seekers : List SymbolId, seekers.Nodup ∧
    (∀ id, id ∈ seekers ↔ ∃ place key, DeclaredFor t b.symbols place key id) ∧
    b.report.countP isRefusal + b.symbols.allEntries.length = seekers.length

theorem nodup_ids (symbols : SymbolTable) : symbols.ids.Nodup := by
  refine List.Nodup.map ?_ List.nodup_range
  intro i j same
  simpa using same

/-- Binding a tree gives each place to the first declaration that seeks it, and refuses the
others. -/
theorem ofTree_tabulates (grown : t.Grown) (bound : ofTree t = .ok b) : Tabulates t b := by
  obtain ⟨sound, accounted, tabled⟩ :=
    (steps_tabled t).ofTree ⟨accounted_empty t, tabled_empty t⟩ bound
  have declared {place : TableKind × NodeId} {key : String} {id : SymbolId}
      (h : ((place, key), id) ∈ b.symbols.allEntries) : DeclaredFor t b.symbols place key id :=
    (sought?_eq_some_iff grown sound).1 (tabled.sought _ h)
  refine ⟨declared, ?_, ?_, ?_, tabled.distinct, ?_⟩
  · intro place key id h other seeks
    exact tabled.first _ h other ((sought?_eq_some_iff grown sound).2 seeks)
  · rintro id symbol node identifier hs hnode hd barred ⟨place, key⟩ h
    obtain ⟨symbol', node', identifier', hs', hnode', hd', named, -, -, table, -⟩ := declared h
    cases hs.symm.trans hs'
    cases hnode.symm.trans hnode'
    cases hd.symm.trans hd'
    rcases barred with event | empty
    · rw [event] at table
      cases table
    · cases empty.symm.trans named
  · intro place key id
    refine ⟨fun h => ?_, SymbolTable.mem_allEntries_of_find?⟩
    obtain ⟨holder, found⟩ := accounted.holder_of_sought (tabled.sought _ h)
    have same := List.inj_on_of_nodup_map tabled.distinct h
      (SymbolTable.mem_allEntries_of_find? found) rfl
    cases same
    exact found
  · refine ⟨b.symbols.ids.filter fun id => (sought? t b.symbols id).isSome,
      (nodup_ids _).filter _, fun id => ?_, ?_⟩
    · rw [List.mem_filter, Option.isSome_iff_exists]
      constructor
      · rintro ⟨-, ⟨place, key⟩, seeks⟩
        exact ⟨place, key, (sought?_eq_some_iff grown sound).1 seeks⟩
      · rintro ⟨place, key, seeks⟩
        have seeks := (sought?_eq_some_iff grown sound).2 seeks
        exact ⟨SymbolTable.mem_ids.2 (owns_of_sought? seeks), _, seeks⟩
    · rw [tabled.tally, seekerCount, List.countP_eq_length_filter]

/-- Two states and two variables whose names differ in case, an event, and a variable without a
name:

    ScriptName A
    State S
    EndState
    State s
    EndState
    Event E()
    EndEvent
    Function F(Int x)
      Int X
      Int
    EndFunction -/
def crowdedForms : List Form :=
  [.identifier "A", .scriptHeader ⟨0⟩ none ∅, .identifier "S", .state ⟨2⟩ false [],
    .identifier "s", .state ⟨4⟩ false [], .identifier "E", .parameterList [], .eventHeader ⟨6⟩ ⟨7⟩,
    .event ⟨8⟩ [], .identifier "F", .identifier "Int", .typeName ⟨11⟩ false, .identifier "x",
    .parameter ⟨12⟩ ⟨13⟩ none false, .parameterList [⟨14⟩], .functionHeader none ⟨10⟩ ⟨15⟩ ∅,
    .identifier "Int", .typeName ⟨17⟩ false, .identifier "X", .declaration ⟨18⟩ ⟨19⟩ none,
    .identifier "Int", .typeName ⟨21⟩ false, .identifier "", .declaration ⟨22⟩ ⟨23⟩ none,
    .function ⟨16⟩ [⟨20⟩, ⟨24⟩], .script ⟨1⟩ [] [⟨3⟩, ⟨5⟩, ⟨9⟩, ⟨25⟩]]

theorem crowded_tabulates : ∃ b, (Tree.ofForms crowdedForms).Grown ∧
    ofTree (.ofForms crowdedForms) = .ok b ∧ b.report.length = 3 ∧
    b.report.countP isRefusal = 2 ∧ b.symbols.allEntries =
      [(((.states, ⟨26⟩), "s"), ⟨1⟩), (((.locals, ⟨25⟩), "x"), ⟨5⟩)] ∧
    Tabulates (.ofForms crowdedForms) b := by
  obtain ⟨b, run, fits⟩ := exists_ok_of_any (o := ofTree (.ofForms crowdedForms))
    (f := fun b => b.report.length = 3 ∧ b.report.countP isRefusal = 2 ∧ b.symbols.allEntries =
      [(((.states, ⟨26⟩), "s"), ⟨1⟩), (((.locals, ⟨25⟩), "x"), ⟨5⟩)])
    (by decide +kernel)
  obtain ⟨reported, refused, entries⟩ := of_decide_eq_true fits
  exact ⟨b, Tree.grown_ofForms (by decide), run, reported, refused, entries,
    ofTree_tabulates (Tree.grown_ofForms (by decide)) run⟩

end Binding

end PapyrusAnalysis
