import PapyrusAnalysis.Proofs.Binding.Surroundings
import PapyrusAnalysis.Proofs.Session.Inheritance

/-!
# Visibility

What can be named at a node that is a member of nothing is a matter of the tree and its symbols: the
names that the containers around the node keep, the members of the script around it, and the global
functions and the structs of the scripts that this one imports. If scripts stand apart, then this is
what every session offers there, and which of it has a name is found without a fault. Two names have
a meaning of their own, and what no symbol is called can be the name of a type.

## Main definitions

* `Codebase.Visible`: a symbol can be named at a node.
* `Session.Reaches`: a name at a node leads to a symbol.
-/

namespace PapyrusAnalysis

namespace Codebase

variable {c : Codebase} {script other id : SymbolId} {symbol : Symbol} {node container : NodeId}
  {kinds : FlagSet MemberKind}

/-- A script lies around a node. -/
def Encloses (c : Codebase) (script : SymbolId) (node : NodeId) : Prop :=
  ∃ root, c.tree.Within node root ∧ c.tree.isWanted Form.isScript root ∧
    c.symbols.symbolOf root = some script

/-- A script imports another one. -/
def Imports (c : Codebase) (script other : SymbolId) : Prop :=
  ∃ symbol line found name, c.symbols.get? script = some symbol ∧ line ∈ symbol.imports ∧
    c.symbols.get? line = some found ∧ found.importedScript = some name ∧
    c.scriptNamed name = some other

/-- The kinds of members that an import offers. -/
def importedKinds (kinds : FlagSet MemberKind) : FlagSet MemberKind :=
  ({.function} ∩ kinds) ∪ {.struct}

/-- A script has a member, or offers one of a script that it imports. -/
def Shows (c : Codebase) (script : SymbolId) (kinds : FlagSet MemberKind) (id : SymbolId)
    (symbol : Symbol) : Prop :=
  c.Admits script kinds .everything id symbol ∨
    ∃ other, c.Imports script other ∧ c.Admits other (importedKinds kinds) .globals id symbol

/-- A container keeps the name of a symbol of one of some kinds. -/
def Keeps (c : Codebase) (container : NodeId) (kinds : FlagSet MemberKind) (id : SymbolId)
    (symbol : Symbol) : Prop :=
  id ∈ (c.symbols.names .locals container).values ∧ c.symbols.get? id = some symbol ∧
    symbol.kind.memberKind?.any (kinds.has ·)

/-- A symbol of one of some kinds can be named at a node that is a member of nothing. -/
inductive Visible (c : Codebase) (kinds : FlagSet MemberKind) (node : NodeId) (id : SymbolId)
    (symbol : Symbol) : Prop where
  | kept {container : NodeId} (around : c.tree.Within node container)
      (keeps : c.Keeps container kinds id symbol)
  | shown {script : SymbolId} (around : c.Encloses script node)
      (shows : c.Shows script kinds id symbol)

theorem Shows.get? (h : c.Shows script kinds id symbol) : c.symbols.get? id = some symbol := by
  rcases h with admitted | ⟨other, -, admitted⟩ <;> exact admitted.provides.get?

theorem Visible.get? (h : c.Visible kinds node id symbol) : c.symbols.get? id = some symbol := by
  cases h with
  | kept _ keeps => exact keeps.2.1
  | shown _ shows => exact shows.get?

end Codebase

/-! ## Names that are kept -/

namespace Binding

/-- Only containers that are no scripts keep names. -/
theorem Sound.keeps_of_kept {t : Tree} {symbols : SymbolTable} (sound : Sound t symbols)
    {container : NodeId} {id : SymbolId} (kept : id ∈ (symbols.names .locals container).values) :
    t.isWanted (keeps .locals) container := by
  obtain ⟨symbol, node, -, -, keeper⟩ := sound.names kept
  obtain ⟨around, -, found⟩ := exists_of_bind_eq_ok keeper
  exact List.find?_some (Except.ok.inj found)

theorem Sound.not_script_of_kept {t : Tree} {symbols : SymbolTable} (sound : Sound t symbols)
    {container : NodeId} {id : SymbolId} (kept : id ∈ (symbols.names .locals container).values) :
    t.isWanted Form.isScript container = false := by
  obtain ⟨form, hf, keeps⟩ := isWanted_iff.1 (sound.keeps_of_kept kept)
  rw [isWanted_of_formAt hf]
  exact Bool.not_eq_true' _ ▸ (Bool.and_eq_true_iff.1 keeps).2

end Binding

namespace Query

open Session

variable {c : Codebase} {s : Session} {script : SymbolId} {symbol : Symbol} {type : TypeId}
  {node : NodeId} {kinds : FlagSet MemberKind}

theorem whole_everything : WholeFilter .everything := ⟨by decide, by decide⟩

theorem whole_globals : WholeFilter .globals := ⟨by decide, by decide⟩

/-! ## What a script shows -/

/-- The members of the scripts with some names. Other types offer nothing when they are imported. -/
theorem runs_importedMembers (firm : c.Firm) (settled : s.Settled c) (kinds : FlagSet MemberKind)
    (names : List String) :
    Runs (settling c) s (importedMembers c kinds names) fun ids _ => ∀ id, id ∈ ids ↔
      ∃ name ∈ names, ∃ other, c.scriptNamed name = some other ∧
        ∃ symbol, c.Admits other (Codebase.importedKinds kinds) .globals id symbol := by
  induction names generalizing s with
  | nil => exact .pure settled (by simp)
  | cons name rest ih =>
    have append {t : Session} {members : List SymbolId} (settled' : t.Settled c)
        (h : ∀ id, id ∈ members ↔ ∃ other, c.scriptNamed name = some other ∧
          ∃ symbol, c.Admits other (Codebase.importedKinds kinds) .globals id symbol) :
        Runs (settling c) t (importedMembers c kinds rest >>= fun more => pure (members ++ more))
          fun ids _ => ∀ id, id ∈ ids ↔ ∃ n ∈ name :: rest, ∃ other,
            c.scriptNamed n = some other ∧
              ∃ symbol, c.Admits other (Codebase.importedKinds kinds) .globals id symbol := by
      refine .bind (ih settled') fun more u _ settled'' h' => .pure settled'' fun id => ?_
      rw [List.mem_append, h, h', List.exists_mem_cons_iff]
    refine .bind (runs_resolveFullName firm settled name) ?_
    rintro found t - settled' ⟨named, unnamed⟩
    cases hother : c.scriptNamed name with
    | some other =>
      obtain ⟨type, rfl, scriptAt⟩ := named other hother
      refine .bind (runs_membersOf firm settled' scriptAt (Codebase.importedKinds kinds)
        whole_globals) fun members u _ settled'' h => append settled'' ?_
      simpa [hother] using h
    | none =>
      cases found with
      | none => exact append settled' (by simp [hother])
      | some type =>
        obtain ⟨info, hi, notScript, notArray⟩ := unnamed hother type rfl
        refine .known (membersOf_plain hi notScript notArray _ ?_) (append settled' ?_)
        · exact fun instances => absurd instances (by decide)
        · simp [hother]

/-- The names of the scripts that a script imports are found without a session. -/
theorem mem_importNames (firm : c.Firm) (hs : c.symbols.get? script = some symbol) (s : Session)
    (name : String) :
    name ∈ (symbol.imports.filterMap fun id => (s.symbol? c id).bind (·.importedScript)) ↔
      ∃ line ∈ symbol.imports, ∃ found, c.symbols.get? line = some found ∧
        found.importedScript = some name := by
  rw [List.mem_filterMap]
  refine exists_congr fun line => and_congr_right fun member => ?_
  rw [symbol?_own s ((firm.symbols.fits hs).owned line (by simp [member])),
    Option.bind_eq_some_iff]

theorem runs_scriptSymbols (firm : c.Firm) (settled : s.Settled c)
    (hs : c.symbols.get? script = some symbol) (kind : symbol.kind = .script)
    (kinds : FlagSet MemberKind) :
    Runs (settling c) s (scriptSymbols c script kinds .everything) fun ids _ => ∀ id, id ∈ ids ↔
      ∃ symbol, c.Shows script kinds id symbol := by
  have own (t : Session) : t.symbol? c script = some symbol :=
    (symbol?_own t (SymbolTable.owns_of_get? hs)).trans hs
  have ofSymbol : Runs (settling c) s (typeOfSymbol c script) fun found t =>
      ∃ type, found = some type ∧ t.ScriptAt script type := by
    refine .known (symbol?_eq c script s) ?_
    rw [own s]
    dsimp only
    rw [kind]
    exact runs_scriptType firm settled hs kind
  refine .bind ofSymbol ?_
  rintro _ t - settled' ⟨type, rfl, scriptAt⟩
  refine .bind (runs_membersOf firm settled' scriptAt kinds whole_everything) ?_
  intro members u _ settled'' own'
  refine .known (symbol?_eq c script u) ?_
  rw [own u]
  refine .known rfl (.bind (runs_importedMembers firm settled'' kinds _) ?_)
  refine fun more v _ settled₃ imported => .pure settled₃ fun id => ?_
  rw [List.mem_append, own', imported]
  simp only [mem_importNames firm hs, Codebase.Shows, Codebase.Imports, exists_or]
  refine or_congr_right ⟨?_, ?_⟩
  · rintro ⟨name, ⟨line, member, found, known, imports⟩, other, named, found', admitted⟩
    exact ⟨found', other, ⟨symbol, line, found, name, hs, member, known, imports, named⟩, admitted⟩
  · rintro ⟨found', other, ⟨symbol', line, found, name, hs', member, known, imports, named⟩,
      admitted⟩
    cases hs.symm.trans hs'
    exact ⟨name, ⟨line, member, found, known, imports⟩, other, named, found', admitted⟩

theorem runs_scriptPart (firm : c.Firm) (settled : s.Settled c) (container : NodeId)
    (kinds : FlagSet MemberKind) :
    Runs (settling c) s (scriptPart c container kinds .everything) fun ids _ => ∀ id, id ∈ ids ↔
      c.tree.isWanted Form.isScript container ∧
        ∃ script, c.symbols.symbolOf container = some script ∧
        ∃ symbol, c.Shows script kinds id symbol := by
  unfold scriptPart
  split
  · rename_i other
    have none : c.tree.isWanted Form.isScript container = false := by
      simpa [Tree.isWanted] using other
    exact .pure settled (by simp [none])
  rename_i isScript
  have isScript : c.tree.isWanted Form.isScript container = true := by
    simpa [Tree.isWanted] using isScript
  split
  · rename_i script hscript
    obtain ⟨n, hn, script'⟩ := (Option.any_eq_true _ _).1 isScript
    obtain ⟨symbol, hs, kind⟩ := firm.symbols.symbolOf_script hn script' hscript
    refine (runs_scriptSymbols firm settled hs kind kinds).imp fun ids t _ _ h id => ?_
    simpa [isScript, hscript] using h id
  · rename_i none
    exact .pure settled (by simp [none])

/-! ## What is around a node -/

/-- What a container offers. One that is a script keeps no names, so no name is taken. -/
theorem runs_containerSymbols (firm : c.Firm) (settled : s.Settled c) (container : NodeId)
    (kinds : FlagSet MemberKind) :
    Runs (settling c) s (containerSymbols c kinds .everything container) fun ids _ =>
      ∀ id, id ∈ ids ↔ ∃ symbol, c.Keeps container kinds id symbol ∨
        c.tree.isWanted Form.isScript container ∧ ∃ script,
          c.symbols.symbolOf container = some script ∧ c.Shows script kinds id symbol := by
  refine .bind (runs_scriptPart firm settled container kinds) ?_
  intro ofScript t _ settled' shown
  rw [if_neg (by decide)]
  refine .get (.pure settled' fun id => ?_)
  have plain {other : SymbolId} (kept : other ∈ (c.symbols.names .locals container).values) :
      ofScript = [] := by
    refine List.eq_nil_iff_forall_not_mem.2 fun id hid => ?_
    cases (firm.symbols.not_script_of_kept kept).symm.trans ((shown id).1 hid).1
  have kept : (∃ entry ∈ t.select c (c.symbols.names .locals container).values
      (isVisibleLocal kinds (ofScript.filterMap fun id =>
        (t.symbol? c id).map fun symbol => Text.lowercase symbol.qualifiedName)), entry.1 = id) ↔
      ∃ symbol, c.Keeps container kinds id symbol := by
    constructor
    · rintro ⟨entry, hentry, rfl⟩
      obtain ⟨kept, known, visible⟩ := mem_select.1 hentry
      rw [symbol?_own t (firm.symbols.names kept).owns] at known
      exact ⟨entry.2, kept, known, (Bool.and_eq_true_iff.1 visible).2⟩
    · rintro ⟨symbol, kept, known, kind⟩
      refine ⟨(id, symbol), mem_select.2 ⟨kept, ?_, ?_⟩, rfl⟩
      · exact (symbol?_own t (SymbolTable.owns_of_get? known)).trans known
      · rw [plain kept]
        simpa [isVisibleLocal] using kind
  rw [List.mem_append, List.mem_map, kept, shown]
  constructor
  · rintro (⟨isScript, script, hscript, symbol, shows⟩ | ⟨symbol, keeps⟩)
    · exact ⟨symbol, .inr ⟨isScript, script, hscript, shows⟩⟩
    · exact ⟨symbol, .inl keeps⟩
  · rintro ⟨symbol, keeps | ⟨isScript, script, hscript, shows⟩⟩
    · exact .inr ⟨symbol, keeps⟩
    · exact .inl ⟨isScript, script, hscript, symbol, shows⟩

/-- The containers around a node. -/
theorem mem_containersAround (has : c.tree.Has node) {containers : List NodeId}
    (h : c.tree.containersAround node = .ok containers) (container : NodeId) :
    container ∈ containers ↔
      c.tree.Within node container ∧ c.tree.isWanted Form.isContainer container := by
  obtain ⟨n, hn⟩ := has.node?
  rw [Tree.containersAround, Tree.lineage_eq (Tree.formAt_eq hn)] at h
  cases h
  rw [List.mem_filter, List.mem_cons, Tree.within_iff, and_iff_right has]
  rfl

/-- Every session offers what can be named at a node. -/
theorem runs_localSymbols (firm : c.Firm) (settled : s.Settled c) (has : c.tree.Has node)
    (kinds : FlagSet MemberKind) :
    Runs (settling c) s (localSymbols c node kinds .everything) fun ids _ => ∀ id, id ∈ ids ↔
      ∃ symbol, c.Visible kinds node id symbol := by
  obtain ⟨containers, hcontainers⟩ := Tree.containersAround_eq_ok has
  have around := mem_containersAround has hcontainers
  refine .lift hcontainers (.bind (Runs.mapM (C := settling c) (fun _ => ([] : List Unit))
    (fun _ => []) (Q := fun _ container ids => ∀ id, id ∈ ids ↔ ∃ symbol,
      c.Keeps container kinds id symbol ∨ c.tree.isWanted Form.isScript container ∧ ∃ script,
        c.symbols.symbolOf container = some script ∧ c.Shows script kinds id symbol)
    (fun _ _ h => h) settled fun container _ t _ settled' => ?_) ?_)
  · refine (runs_containerSymbols firm settled' container kinds).imp ?_
    exact fun ids u _ _ h => ⟨h, rfl⟩
  · rintro results t - settled' ⟨each, -⟩
    refine .pure settled' fun id => ?_
    rw [List.mem_flatten]
    constructor
    · rintro ⟨part, hpart, inside⟩
      obtain ⟨container, hc, offered⟩ := exists_left_of_mem each hpart
      have within := ((around container).1 hc).1
      obtain ⟨symbol, keeps | ⟨isScript, script, hscript, shows⟩⟩ := (offered id).1 inside
      · exact ⟨symbol, .kept within keeps⟩
      · exact ⟨symbol, .shown ⟨container, within, isScript, hscript⟩ shows⟩
    · have among {container : NodeId} (within : c.tree.Within node container)
          (isContainer : c.tree.isWanted Form.isContainer container)
          (h : ∃ symbol, c.Keeps container kinds id symbol ∨
            c.tree.isWanted Form.isScript container ∧ ∃ script,
              c.symbols.symbolOf container = some script ∧ c.Shows script kinds id symbol) :
          ∃ part ∈ results, id ∈ part := by
        obtain ⟨part, hpart, offered⟩ :=
          exists_right_of_mem each ((around container).2 ⟨within, isContainer⟩)
        exact ⟨part, hpart, (offered id).2 h⟩
      rintro ⟨symbol, visible⟩
      cases visible with
      | kept within keeps =>
        obtain ⟨form, hf, keeper⟩ := Binding.isWanted_iff.1 (firm.symbols.keeps_of_kept keeps.1)
        refine among within ?_ ⟨symbol, .inl keeps⟩
        rw [Binding.isWanted_of_formAt hf]
        exact (Bool.and_eq_true_iff.1 keeper).1
      | shown encloses shows =>
        obtain ⟨root, within, isScript, hscript⟩ := encloses
        refine among within ?_ ⟨symbol, .inr ⟨isScript, _, hscript, shows⟩⟩
        obtain ⟨form, hf, script⟩ := Binding.isWanted_iff.1 isScript
        rw [Binding.isWanted_of_formAt hf]
        cases form <;> first | rfl | cases script

/-! ## Names -/

theorem withName_eq (c : Codebase) (name : String) (ids : List SymbolId) (s : Session) :
    withName c name ids s = .ok ((s.select c ids (Text.sameFolded name ·.name)).map (·.1), s) :=
  rfl

/-- A name is the full name of a type that belongs to a symbol. -/
def TypeNamed (c : Codebase) (s : Session) (name : String) (id : SymbolId) : Prop :=
  ∃ type info, resolveType c name [] s = .ok (some type, s) ∧ s.types.get? type = some info ∧
    info.symbol = id

/-- What a full name leads to is no array, and stays the same. -/
theorem runs_resolveAgain (firm : c.Firm) (settled : s.Settled c) (name : String) :
    Runs (settling c) s (resolveType c name []) fun found t =>
      resolveType c name [] t = .ok (found, t) ∧ ∀ type, found = some type →
        ∃ info, t.types.get? type = some info ∧ info.isArray = false := by
  cases runs_resolveFullName firm settled name with
  | fault _ tolerated => exact tolerated.elim
  | @done found t run grows settled' holds =>
    obtain ⟨named, unnamed⟩ := holds
    obtain ⟨-, -, -, again⟩ := lasts_resolveFullName firm settled.toFounded name run
    refine .done run grows settled' ⟨again settled'.toFounded ((settling c).refl t), ?_⟩
    rintro type rfl
    cases hscript : c.scriptNamed name with
    | none =>
      obtain ⟨info, hi, -, notArray⟩ := unnamed hscript type rfl
      exact ⟨info, hi, notArray⟩
    | some script =>
      obtain ⟨_, ⟨⟩, info, hi, isScript, -⟩ := named script hscript
      obtain ⟨structs, hf⟩ := TypeInfo.form_of_script isScript
      exact ⟨info, hi, by simp [TypeInfo.isArray, hf]⟩

theorem runs_typeSymbol (firm : c.Firm) (settled : s.Settled c) (name : String) :
    Runs (settling c) s (Inference.typeSymbol c name) fun ids t => ∀ id, id ∈ ids ↔
      TypeNamed c t name id := by
  refine .bind (runs_resolveAgain firm settled name) ?_
  rintro found t - settled' ⟨again, known⟩
  cases found with
  | none =>
    refine .pure settled' fun id => ⟨by simp, ?_⟩
    rintro ⟨type, info, resolved, -⟩
    cases again.symm.trans resolved
  | some type =>
    obtain ⟨info, hi, notArray⟩ := known type rfl
    refine .known (typeInfo_eq hi) (.pure settled' fun id => ?_)
    rw [notArray]
    constructor
    · intro found
      exact ⟨type, info, again, hi, (List.mem_singleton.1 found).symm⟩
    · rintro ⟨_, _, resolved, hi', rfl⟩
      cases again.symm.trans resolved
      cases hi.symm.trans hi'
      exact List.mem_singleton_self _

end Query

namespace Session

variable {c : Codebase} {s : Session} {node : NodeId} {kinds : FlagSet MemberKind} {name : String}
  {id : SymbolId} {script : Option SymbolId}

/-- A name at a node that is a member of nothing leads to a symbol. Two names stand for scripts, and
a name that nothing that can be named there has can be that of a type. -/
inductive Reaches (c : Codebase) (s : Session) (node : NodeId) (kinds : FlagSet MemberKind)
    (name : String) (id : SymbolId) : Prop where
  | self (h : Text.sameFolded name "self") (around : Query.scriptAround c node s = .ok (some id, s))
  | parent {script : SymbolId} {symbol : Symbol} {extended : String}
      (h : Text.sameFolded name "parent")
      (around : Query.scriptAround c node s = .ok (some script, s))
      (known : c.symbols.get? script = some symbol)
      (extending : symbol.extendedScript = some extended)
      (found : c.scripts.find? extended = some id)
  | symbol {symbol : Symbol} (h : Text.sameFolded name "self" = false)
      (h' : Text.sameFolded name "parent" = false) (visible : c.Visible kinds node id symbol)
      (called : Text.sameFolded name symbol.name)
  | typeName (h : Text.sameFolded name "self" = false) (h' : Text.sameFolded name "parent" = false)
      (none : ∀ {other symbol}, c.Visible kinds node other symbol →
        Text.sameFolded name symbol.name = false)
      (named : Query.TypeNamed c s name id)

theorem eq_of_scriptAround (around : ∀ t, Query.scriptAround c node t = .ok (script, t))
    (h : Query.scriptAround c node s = .ok (some id, s)) : script = some id :=
  congrArg Prod.fst (Except.ok.inj ((around s).symm.trans h))

theorem reaches_self_iff (self : Text.sameFolded name "self")
    (around : ∀ t, Query.scriptAround c node t = .ok (script, t)) :
    s.Reaches c node kinds name id ↔ script = some id := by
  constructor
  · intro reaches
    cases reaches with
    | self _ h => exact eq_of_scriptAround around h
    | parent parent =>
      have both := (Text.sameFolded_iff.1 self).symm.trans (Text.sameFolded_iff.1 parent)
      exact absurd both (by decide)
    | symbol other => cases self.symm.trans other
    | typeName other => cases self.symm.trans other
  · rintro rfl
    exact .self self (around s)

theorem reaches_parent_iff (notSelf : Text.sameFolded name "self" = false)
    (parent : Text.sameFolded name "parent")
    (around : ∀ t, Query.scriptAround c node t = .ok (script, t)) :
    s.Reaches c node kinds name id ↔ ∃ below symbol extended, script = some below ∧
      c.symbols.get? below = some symbol ∧ symbol.extendedScript = some extended ∧
        c.scripts.find? extended = some id := by
  constructor
  · intro reaches
    cases reaches with
    | self self => cases notSelf.symm.trans self
    | parent _ h hs extending found =>
      exact ⟨_, _, _, eq_of_scriptAround around h, hs, extending, found⟩
    | symbol _ other => cases parent.symm.trans other
    | typeName _ other => cases parent.symm.trans other
  · rintro ⟨below, symbol, extended, rfl, hs, extending, found⟩
    exact .parent parent (around s) hs extending found

section Ordinary

variable (notSelf : Text.sameFolded name "self" = false)
  (notParent : Text.sameFolded name "parent" = false)

include notSelf notParent

theorem reaches_symbol_iff {other : SymbolId} {symbol : Symbol}
    (visible : c.Visible kinds node other symbol) (called : Text.sameFolded name symbol.name) :
    s.Reaches c node kinds name id ↔
      ∃ symbol, c.Visible kinds node id symbol ∧ Text.sameFolded name symbol.name := by
  constructor
  · intro reaches
    cases reaches with
    | self self => cases notSelf.symm.trans self
    | parent parent => cases notParent.symm.trans parent
    | symbol _ _ visible called => exact ⟨_, visible, called⟩
    | typeName _ _ none => cases called.symm.trans (none visible)
  · rintro ⟨symbol, visible, called⟩
    exact .symbol notSelf notParent visible called

theorem reaches_typeName_iff (none : ∀ {other symbol}, c.Visible kinds node other symbol →
      Text.sameFolded name symbol.name = false) :
    s.Reaches c node kinds name id ↔ Query.TypeNamed c s name id := by
  constructor
  · intro reaches
    cases reaches with
    | self self => cases notSelf.symm.trans self
    | parent parent => cases notParent.symm.trans parent
    | symbol _ _ visible called => cases called.symm.trans (none visible)
    | typeName _ _ _ named => exact named
  · exact .typeName notSelf notParent none

end Ordinary

end Session

namespace Inference

open Query Session

variable {c : Codebase} {s : Session} {k : Inference} {node : NodeId} {kinds : FlagSet MemberKind}

/-- The script that the script around a node extends. -/
theorem runs_parentScript (settled : s.Settled c) {script : Option SymbolId}
    (known : ∀ id, script = some id → ∃ symbol, c.symbols.get? id = some symbol) :
    Runs (settling c) s (parentScript c script) fun found _ => ∀ id, found = some id ↔
      ∃ below symbol extended, script = some below ∧ c.symbols.get? below = some symbol ∧
        symbol.extendedScript = some extended ∧ c.scripts.find? extended = some id := by
  unfold parentScript
  cases script with
  | none => exact .pure settled (by simp)
  | some below =>
    obtain ⟨symbol, hs⟩ := known below rfl
    refine .known (symbol?_eq c below s) (.pure settled fun id => ?_)
    rw [symbol?_own s (SymbolTable.owns_of_get? hs), hs, Option.bind_some,
      Option.bind_eq_some_iff]
    simp [hs]

/-- The symbols with a name among those that can be named at a node. -/
theorem mem_named (s : Session) {ids : List SymbolId}
    (visible : ∀ id, id ∈ ids ↔ ∃ symbol, c.Visible kinds node id symbol) (name : String)
    (id : SymbolId) :
    id ∈ (s.select c ids (Text.sameFolded name ·.name)).map (·.1) ↔
      ∃ symbol, c.Visible kinds node id symbol ∧ Text.sameFolded name symbol.name := by
  have own {id : SymbolId} {symbol : Symbol} (h : c.Visible kinds node id symbol) :
      s.symbol? c id = some symbol :=
    (symbol?_own s (SymbolTable.owns_of_get? h.get?)).trans h.get?
  rw [List.mem_map]
  constructor
  · rintro ⟨entry, hentry, rfl⟩
    obtain ⟨member, known, called⟩ := mem_select.1 hentry
    obtain ⟨symbol, h⟩ := (visible entry.1).1 member
    cases (own h).symm.trans known
    exact ⟨entry.2, h, called⟩
  · rintro ⟨symbol, h, called⟩
    exact ⟨(id, symbol), mem_select.2 ⟨(visible id).2 ⟨symbol, h⟩, own h, called⟩, rfl⟩

/-- What a name at a node that is a member of nothing leads to. -/
theorem runs_matching (firm : c.Firm) (settled : s.Settled c) (has : c.tree.Has node)
    (unbased : c.tree.baseFor node = .ok none) (hkinds : c.tree.memberKindsAt node = .ok kinds)
    (name : String) :
    Runs (settling c) s (k.matching c node name .everything) fun ids t => ∀ id, id ∈ ids ↔
      t.Reaches c node kinds name id := by
  obtain ⟨script, around, isScript⟩ := scriptAround_eq firm.symbols has
  refine .known (around s) ?_
  split
  · rename_i self
    refine .pure settled fun id => ?_
    rw [Option.mem_toList, reaches_self_iff self around]
  rename_i notSelf
  rw [Bool.not_eq_true] at notSelf
  split
  · rename_i parent
    refine .bind (runs_parentScript settled fun id hid => ?_) ?_
    · obtain ⟨symbol, hs, -⟩ := isScript id hid
      exact ⟨symbol, hs⟩
    refine fun found t _ settled' extended => .pure settled' fun id => ?_
    rw [Option.mem_toList, extended, reaches_parent_iff notSelf parent around]
  rename_i notParent
  rw [Bool.not_eq_true] at notParent
  have listed : Runs (settling c) s (k.available c node kinds .everything) fun search _ =>
      search.base = none ∧
        ∀ id, id ∈ search.symbols ↔ ∃ symbol, c.Visible kinds node id symbol := by
    refine .lift unbased (.bind (runs_localSymbols firm settled has kinds) ?_)
    exact fun ids t _ settled' visible => .pure settled' ⟨rfl, visible⟩
  refine .lift hkinds (.bind listed ?_)
  rintro search t - settled' ⟨base, visible⟩
  refine .known (withName_eq c name search.symbols t) ?_
  have named := mem_named t visible name
  generalize (t.select c search.symbols (Text.sameFolded name ·.name)).map (·.1) = found at named
  cases found with
  | cons first rest =>
    obtain ⟨symbol, seen, called⟩ := (named first).1 (by simp)
    refine .pure settled' fun id => ?_
    rw [named, reaches_symbol_iff notSelf notParent seen called]
  | nil =>
    rw [base]
    refine (runs_typeSymbol firm settled' name).imp fun ids u _ _ typeNamed id => ?_
    rw [typeNamed, reaches_typeName_iff notSelf notParent]
    intro other symbol seen
    refine Bool.eq_false_iff.2 fun called => ?_
    cases (named other).2 ⟨symbol, seen, called⟩

end Inference

end PapyrusAnalysis
