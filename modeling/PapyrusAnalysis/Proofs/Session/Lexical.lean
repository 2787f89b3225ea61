import PapyrusAnalysis.Proofs.Binding.Tables
import PapyrusAnalysis.Proofs.Session.Enumeration
import PapyrusAnalysis.Proofs.Session.Redeclaration
import PapyrusAnalysis.Proofs.Session.Structs

/-!
# Names from the inside out

A name at a node that is a member of nothing is looked for in the containers around the node, the
innermost one first, then among the members of the script and what its imports offer. A container
keeps at most one symbol with a name. Only if nothing is called so can the name be that of a type.
So what other containers keep is not found, with one exception: what a state defines is also a
member of the script that the state is defined in.

## Main definitions

* `Tree.Nested`: the containers around a node that keep names, from the inside out.
* `Codebase.Displays`: the members of a script and what its imports offer, in their order.
* `Codebase.Surrounds`: what is around a node.
* `Session.Answers`: what a name leads to, given what is called so.
* `Codebase.Lifts`: a state keeps a member of the script around it.

## Main statements

* `Query.found_from_inside_out`: what a name leads to.
-/

namespace PapyrusAnalysis

/-! ## The containers around a node -/

/-- What nothing comes after is the last of a list. -/
theorem filter_append_of_pairwise {α : Type} {R : α → α → Prop} {p : α → Bool} {l : List α}
    (pairwise : l.Pairwise R) (before : ∀ a b, R a b → p a = false) :
    l.filter (!p ·) ++ l.filter p = l ∧ (l.filter p).length ≤ 1 := by
  induction l with
  | nil => exact ⟨rfl, Nat.zero_le _⟩
  | cons a l ih =>
    obtain ⟨first, rest⟩ := List.pairwise_cons.1 pairwise
    obtain ⟨joined, few⟩ := ih rest
    cases hp : p a with
    | false => simp [hp, joined, few]
    | true =>
      cases l with
      | nil => simp [hp]
      | cons b l => cases hp.symm.trans (before a b (first b List.mem_cons_self))

namespace Tree

variable {t : Tree} {node : NodeId}

/-- The containers around a node that keep the names declared in them, from the inside out. -/
structure Nested (t : Tree) (node : NodeId) (bodies : List NodeId) : Prop where
  mem_iff : ∀ body, body ∈ bodies ↔ t.Within node body ∧ t.isWanted (Binding.keeps .locals) body
  insideOut : bodies.Pairwise fun inner outer => inner ≠ outer ∧ t.Within inner outer

theorem Grown.pairwise_lineage (grown : t.Grown) (has : t.Has node) :
    (node :: t.outward node).Pairwise fun inner outer => inner ≠ outer ∧ t.Within inner outer := by
  induction node using grown.inward with
  | step node ih =>
    refine List.pairwise_cons.2 ⟨fun outer h => ?_, ?_⟩
    · exact ⟨grown.ne_of_mem_outward h, within_iff.2 ⟨has, .inr h⟩⟩
    cases hp : t.parentAt node with
    | none =>
      rw [outward_of_none hp]
      exact .nil
    | some p =>
      rw [outward_of_parent grown hp]
      exact ih p hp (grown.has_of_parentAt hp).2.1

theorem isWanted_keeps (t : Tree) (node : NodeId) : t.isWanted (Binding.keeps .locals) node =
    (t.isWanted Form.isContainer node && !t.isWanted Form.isScript node) := by
  unfold isWanted
  cases t.node? node <;> rfl

theorem ScriptsOnTop.parentAt_eq_none (top : t.ScriptsOnTop) {root : NodeId}
    (isScript : t.isWanted Form.isScript root) : t.parentAt root = none := by
  obtain ⟨n, hn, script⟩ := (Option.any_eq_true _ _).1 isScript
  exact (parentAt_eq hn).trans (top root n hn script)

/-- The containers around a node are those that keep names, and then the script if there is one. -/
theorem exists_nested (grown : t.Grown) (top : t.ScriptsOnTop) (has : t.Has node) :
    ∃ bodies, t.Nested node bodies ∧
      ((∃ root, t.Within node root ∧ t.isWanted Form.isScript root ∧
        t.containersAround node = .ok (bodies ++ [root])) ∨
      (∀ root, t.Within node root → t.isWanted Form.isScript root = false) ∧
        t.containersAround node = .ok bodies) := by
  obtain ⟨containers, around, mem, pairwise⟩ : ∃ containers, t.containersAround node =
      .ok containers ∧ (∀ a, a ∈ containers ↔ t.Within node a ∧ t.isWanted Form.isContainer a) ∧
        containers.Pairwise fun inner outer => inner ≠ outer ∧ t.Within inner outer := by
    obtain ⟨n, hn⟩ := has.node?
    refine ⟨_, by rw [containersAround, lineage_eq (formAt_eq hn)]; rfl, fun a => ?_,
      (grown.pairwise_lineage has).filter _⟩
    rw [List.mem_filter, List.mem_cons, within_iff, and_iff_right has]
    rfl
  obtain ⟨joined, few⟩ := filter_append_of_pairwise (p := t.isWanted Form.isScript) pairwise
    fun inner outer apart => by
      refine Bool.eq_false_iff.2 fun isScript => ?_
      have alone := (within_of_no_parent (top.parentAt_eq_none isScript)).1 apart.2
      exact apart.1 alone.2.symm
  refine ⟨containers.filter (!t.isWanted Form.isScript ·), ⟨fun body => ?_, pairwise.filter _⟩, ?_⟩
  · rw [List.mem_filter, mem, isWanted_keeps, Bool.and_eq_true, and_assoc]
  cases roots : containers.filter (t.isWanted Form.isScript) with
  | nil =>
    refine .inr ⟨fun root within => Bool.eq_false_iff.2 fun isScript => ?_, ?_⟩
    · refine List.filter_eq_nil_iff.1 roots root ((mem root).2 ⟨within, ?_⟩) isScript
      obtain ⟨form, hf, script⟩ := Binding.isWanted_iff.1 isScript
      rw [Binding.isWanted_of_formAt hf]
      cases form <;> first | rfl | cases script
    · rw [roots, List.append_nil] at joined
      rw [around, joined]
  | cons root rest =>
    rw [roots, List.length_cons] at few
    obtain rfl : rest = [] := List.eq_nil_of_length_eq_zero (by omega)
    obtain ⟨inside, isScript⟩ := List.mem_filter.1 (roots ▸ List.mem_singleton_self root)
    refine .inl ⟨root, ((mem root).1 inside).1, isScript, ?_⟩
    rw [around, ← roots, joined]

end Tree

namespace Binding

variable {t : Tree} {symbols : SymbolTable} {id : SymbolId} {symbol : Symbol}
  {node container root header : NodeId} {imports definitions : List NodeId}

/-- What keeps a name is the innermost container around its declaration that keeps names. -/
theorem Sound.innermost_of_keeper (sound : Sound t symbols) (grown : t.Grown) {table : TableKind}
    (hs : symbols.get? id = some symbol) (hd : symbol.declaration = some node)
    (h : keeper? t table node = .ok (some container)) :
    t.Innermost (keeps table) node container := by
  obtain ⟨node', identifier, hd', hk, -⟩ := (sound.fits hs).declared
  cases hd.symm.trans hd'
  obtain ⟨n, hn⟩ := Tree.node?_of_declaration? hk
  rw [keeper?, Tree.ancestors_eq (Tree.formAt_eq hn)] at h
  exact grown.innermost_iff.2 (Except.ok.inj h)

section Members

variable (wf : t.WellFormed) (top : t.ScriptsOnTop)
  (hroot : t.formAt root = some (.script header imports definitions))

include wf top hroot

/-- Nothing keeps the name of a definition of a script, which has nothing around it. -/
theorem not_innermost_of_definition (h : node ∈ definitions) :
    ¬ t.Innermost (keeps .locals) node container := by
  have parent := parentAt_of_definition wf hroot h
  have alone := top.parentAt_eq_none ((isWanted_of_formAt hroot _).trans rfl)
  intro innermost
  cases innermost with
  | parent above hform holds =>
    cases parent.symm.trans above
    cases hroot.symm.trans hform
    cases holds
  | outer above _ _ rest =>
    cases parent.symm.trans above
    cases rest with
    | parent above' => cases alone.symm.trans above'
    | outer above' => cases alone.symm.trans above'

/-- What keeps the name of a member of a script is a state that the script defines. -/
theorem state_of_innermost (h : node ∈ memberNodes t definitions)
    (innermost : t.Innermost (keeps .locals) node container) :
    container ∈ definitions ∧ t.isWanted Form.isState container := by
  simp only [memberNodes, List.mem_append, List.mem_flatMap] at h
  rcases h with (hd | ⟨d, hd, inGroup⟩) | ⟨d, hd, inState⟩
  · exact absurd innermost (not_innermost_of_definition wf top hroot hd)
  · have parent := parentAt_of_groupProperties wf inGroup
    unfold groupProperties at inGroup
    split at inGroup
    · rename_i group
      cases innermost with
      | parent above hform holds =>
        cases parent.symm.trans above
        cases group.symm.trans hform
        cases holds
      | outer above _ _ rest =>
        cases parent.symm.trans above
        exact absurd rest (not_innermost_of_definition wf top hroot hd)
    · cases inGroup
  · have parent := parentAt_of_stateDefinitions wf inState
    unfold stateDefinitions at inState
    split at inState
    · rename_i state
      cases innermost with
      | parent above =>
        cases parent.symm.trans above
        exact ⟨hd, isWanted_of_formAt state _⟩
      | outer above hform fails _ =>
        cases parent.symm.trans above
        cases state.symm.trans hform
        cases fails
    · cases inState

end Members

end Binding

/-! ## What can be named -/

namespace Codebase

variable {c : Codebase} {kinds : FlagSet MemberKind} {filter : Filter} {script id : SymbolId}
  {node container : NodeId} {name : String} {ids : List SymbolId}

/-- The symbols of some kinds that a container keeps. -/
def kept (c : Codebase) (kinds : FlagSet MemberKind) (container : NodeId) : List SymbolId :=
  (c.symbols.names .locals container).values.filter fun id =>
    (c.symbols.get? id).any (·.kind.memberKind?.any kinds.has)

/-- Whether a symbol has a name, up to the case of ASCII letters. -/
def isCalled (c : Codebase) (name : String) (id : SymbolId) : Bool :=
  (c.symbols.get? id).any (Text.sameFolded name ·.name)

/-- The members of a script of some kinds that a filter admits, in the order of their listing. -/
def Musters (c : Codebase) (script : SymbolId) (kinds : FlagSet MemberKind) (filter : Filter)
    (ids : List SymbolId) : Prop :=
  ∃ hierarchy, c.Ascends script [] hierarchy ∧ ids =
    (MemberKind.listed.filter kinds.has).flatMap (c.listedMembers filter hierarchy script)

/-- What a script with a name offers when it is imported. -/
def Offers (c : Codebase) (kinds : FlagSet MemberKind) (name : String) (ids : List SymbolId) :
    Prop :=
  (∃ other, c.scriptNamed name = some other ∧
    c.Musters other (importedKinds kinds) .globals ids) ∨ c.scriptNamed name = none ∧ ids = []

/-- The names of the scripts that a script imports. -/
def importedNames (c : Codebase) (script : SymbolId) : List String :=
  (((c.symbols.get? script).map (·.imports)).getD []).filterMap fun line =>
    (c.symbols.get? line).bind (·.importedScript)

/-- The members of a script, followed by what its imports offer. -/
def Displays (c : Codebase) (script : SymbolId) (kinds : FlagSet MemberKind)
    (ids : List SymbolId) : Prop :=
  ∃ members offered, c.Musters script kinds .everything members ∧
    List.Forall₂ (c.Offers kinds) (c.importedNames script) offered ∧
    ids = members ++ offered.flatten

/-- What is around a node: the kinds of symbols that can be named at it, the containers that keep
names from the inside out, and what the script shows. -/
structure Surrounds (c : Codebase) (node : NodeId) (kinds : FlagSet MemberKind)
    (bodies : List NodeId) (shown : List SymbolId) : Prop where
  limit : c.tree.memberKindsAt node = .ok kinds
  nested : c.tree.Nested node bodies
  script : (∃ script, c.Encloses script node ∧ c.Displays script kinds shown) ∨
    (∀ script, ¬ c.Encloses script node) ∧ shown = []

/-- The symbols around a node that have a name: those that the containers keep, from the inside out,
and then those that the script shows. -/
def called (c : Codebase) (kinds : FlagSet MemberKind) (name : String) (bodies : List NodeId)
    (shown : List SymbolId) : List SymbolId :=
  bodies.flatMap (fun body => (c.kept kinds body).filter (c.isCalled name)) ++
    shown.filter (c.isCalled name)

/-- A symbol is a member of a script. -/
def IsMember (c : Codebase) (id : SymbolId) : Prop :=
  ∃ script above, c.symbols.get? script = some above ∧ above.kind = .script ∧ id ∈ above.members

/-- A state keeps a symbol that is a member of the script that the state is defined in. -/
def Lifts (c : Codebase) (container : NodeId) (id : SymbolId) : Prop :=
  c.tree.isWanted Form.isState container ∧ ∃ root script above,
    c.tree.parentAt container = some root ∧ Binding.DeclaredAt c.symbols script root ∧
    c.symbols.get? script = some above ∧ above.kind = .script ∧ id ∈ above.members

theorem Firm.script_of_named (firm : c.Firm) (h : c.scriptNamed name = some script) :
    ∃ symbol, c.symbols.get? script = some symbol ∧ symbol.kind = .script := by
  unfold scriptNamed at h
  split at h
  · cases h
  · obtain ⟨symbol, hs, kind, -⟩ := firm.scripts h
    exact ⟨symbol, hs, kind⟩

/-- What a script inherits from are scripts. -/
theorem Firm.script_of_inherits (firm : c.Firm) {symbol : Symbol}
    (hs : c.symbols.get? script = some symbol) (kind : symbol.kind = .script) {a : SymbolId}
    (h : c.Inherits script a) :
    ∃ symbol, c.symbols.get? a = some symbol ∧ symbol.kind = .script := by
  cases h with
  | refl => exact ⟨symbol, hs, kind⟩
  | tail _ extending =>
    obtain ⟨name, -, found⟩ := Option.bind_eq_some_iff.1 extending
    exact firm.script_of_named found

theorem Musters.isMember (firm : c.Firm) {symbol : Symbol}
    (hs : c.symbols.get? script = some symbol) (kind : symbol.kind = .script)
    (h : c.Musters script kinds filter ids) (hid : id ∈ ids) : c.IsMember id := by
  obtain ⟨hierarchy, ascends, rfl⟩ := h
  obtain ⟨of, -, listed⟩ := List.mem_flatMap.1 hid
  have inside := (ascends.mem_iff script).2 .refl
  obtain ⟨a, ha, own⟩ := List.mem_flatMap.1 ((listedMembers_sublist inside).subset listed)
  obtain ⟨above, known, member, -⟩ := mem_ownMembers.1 own
  obtain ⟨above', known', isScript⟩ := firm.script_of_inherits hs kind ((ascends.mem_iff a).1 ha)
  cases known.symm.trans known'
  exact ⟨a, above, known, isScript, member⟩

/-- What a script shows are members of scripts. -/
theorem Displays.isMember (firm : c.Firm) {symbol : Symbol}
    (hs : c.symbols.get? script = some symbol) (kind : symbol.kind = .script)
    (h : c.Displays script kinds ids) (hid : id ∈ ids) : c.IsMember id := by
  obtain ⟨members, offered, musters, imports, rfl⟩ := h
  rcases List.mem_append.1 hid with own | imported
  · exact musters.isMember firm hs kind own
  · obtain ⟨part, hpart, inside⟩ := List.mem_flatten.1 imported
    obtain ⟨name, -, ⟨other, named, musters'⟩ | ⟨-, rfl⟩⟩ := exists_left_of_mem imports hpart
    · obtain ⟨symbol', hs', kind'⟩ := firm.script_of_named named
      exact musters'.isMember firm hs' kind' inside
    · cases inside

/-- Of the members of scripts, containers keep those that a state defines. -/
theorem Declares.lifts (h : c.Declares) (member : c.IsMember id)
    (held : id ∈ (c.symbols.names .locals container).values) : c.Lifts container id := by
  have wf := h.wellFormed
  obtain ⟨script, above, hs, kind, hid⟩ := member
  obtain ⟨root, header, imports, definitions, parts, hroot, declared, all, sub⟩ :=
    h.parts_of_script hs kind
  obtain ⟨part, hp, made⟩ := exists_right_of_mem all hid
  obtain ⟨symbol, node, known, hd, keeper⟩ := h.symbols.names held
  cases h.biUnique.right made ⟨symbol, known, hd⟩
  obtain ⟨defined, state⟩ := Binding.state_of_innermost wf h.top hroot (sub.subset hp)
    (h.symbols.innermost_of_keeper wf.grown known hd keeper)
  exact ⟨state, root, script, above, Binding.parentAt_of_definition wf hroot defined, declared, hs,
    kind, hid⟩

end Codebase

/-! ## What a session offers -/

/-- Every session selects the same symbols of the codebase. -/
theorem Session.map_select {c : Codebase} {ids : List SymbolId} (s : Session)
    (owned : ∀ id ∈ ids, c.symbols.owns id) (wanted : Symbol → Bool) :
    (s.select c ids wanted).map (·.1) =
      ids.filter fun id => (c.symbols.get? id).any wanted := by
  simp only [select, List.map_filterMap, ← List.filterMap_eq_filter]
  refine List.filterMap_congr fun id hid => ?_
  rw [symbol?_own s (owned id hid)]
  cases hs : c.symbols.get? id with
  | none => simp [Option.guard, hs]
  | some symbol => cases h : wanted symbol <;> simp [Option.guard, hs, h]

namespace Query

open Session

variable {c : Codebase} {s : Session} {script : SymbolId} {symbol : Symbol} {type : TypeId}
  {node : NodeId} {kinds : FlagSet MemberKind} {name : String}

theorem runs_musters (firm : c.Firm) (settled : s.Settled c) (scriptAt : s.ScriptAt script type)
    (kinds : FlagSet MemberKind) (filter : Filter) :
    Runs (settling c) s (membersOf c type kinds filter) fun ids _ =>
      c.Musters script kinds filter ids := by
  obtain ⟨hierarchy, ascends⟩ := exists_ascends firm settled scriptAt
  refine (runs_membersOf_kinds firm settled scriptAt ascends kinds filter).imp ?_
  exact fun ids t _ _ same => ⟨hierarchy, ascends, same⟩

/-- What some imports offer, one after the other. Names of other types offer nothing. -/
theorem runs_offers (firm : c.Firm) (settled : s.Settled c) (kinds : FlagSet MemberKind)
    (names : List String) :
    Runs (settling c) s (importedMembers c kinds names) fun ids _ => ∃ offered,
      List.Forall₂ (c.Offers kinds) names offered ∧ ids = offered.flatten := by
  induction names generalizing s with
  | nil => exact .pure settled ⟨[], .nil, rfl⟩
  | cons name rest ih =>
    have append {t : Session} {members : List SymbolId} (settled' : t.Settled c)
        (h : c.Offers kinds name members) :
        Runs (settling c) t (importedMembers c kinds rest >>= fun more => pure (members ++ more))
          fun ids _ => ∃ offered, List.Forall₂ (c.Offers kinds) (name :: rest) offered ∧
            ids = offered.flatten := by
      refine .bind (ih settled') ?_
      rintro _ u - settled'' ⟨offered, all, rfl⟩
      exact .pure settled'' ⟨members :: offered, .cons h all, rfl⟩
    refine .bind (runs_resolveFullName firm settled name) ?_
    rintro found t - settled' ⟨named, unnamed⟩
    cases hother : c.scriptNamed name with
    | some other =>
      obtain ⟨type, rfl, scriptAt⟩ := named other hother
      refine .bind (runs_musters firm settled' scriptAt _ .globals) ?_
      exact fun members u _ settled'' musters => append settled'' (.inl ⟨other, hother, musters⟩)
    | none =>
      cases found with
      | none => exact append settled' (.inr ⟨hother, rfl⟩)
      | some type =>
        obtain ⟨info, hi, notScript, notArray⟩ := unnamed hother type rfl
        refine .known (membersOf_plain hi notScript notArray _ ?_)
          (append settled' (.inr ⟨hother, rfl⟩))
        exact fun instances => absurd instances (by decide)

theorem importNames_eq (firm : c.Firm) (hs : c.symbols.get? script = some symbol) (s : Session) :
    importNames c symbol s = .ok (c.importedNames script, s) := by
  have same : (symbol.imports.filterMap fun id => (s.symbol? c id).bind (·.importedScript)) =
      c.importedNames script := by
    rw [Codebase.importedNames, hs]
    refine List.filterMap_congr fun line hline => ?_
    rw [symbol?_own s ((firm.symbols.fits hs).owned line (by simp [hline]))]
  exact congrArg (fun names => Except.ok (names, s)) same

/-- A script shows its members and what its imports offer. -/
theorem runs_displays (firm : c.Firm) (settled : s.Settled c)
    (hs : c.symbols.get? script = some symbol) (kind : symbol.kind = .script)
    (kinds : FlagSet MemberKind) :
    Runs (settling c) s (scriptSymbols c script kinds .everything) fun ids _ =>
      c.Displays script kinds ids := by
  have own (t : Session) : t.symbol? c script = some symbol := symbol?_eq_of_get? hs t
  have ofSymbol : Runs (settling c) s (typeOfSymbol c script) fun found t =>
      ∃ type, found = some type ∧ t.ScriptAt script type := by
    refine .known (symbol?_eq c script s) ?_
    rw [own s]
    dsimp only
    rw [kind]
    exact runs_scriptType firm settled hs kind
  refine .bind ofSymbol ?_
  rintro _ t - settled' ⟨type, rfl, scriptAt⟩
  refine .bind (runs_musters firm settled' scriptAt kinds .everything) ?_
  intro members u _ settled'' musters
  refine .known (symbol?_eq c script u) ?_
  rw [own u]
  refine .known (importNames_eq firm hs u) (.bind (runs_offers firm settled'' kinds _) ?_)
  rintro _ v - settled₃ ⟨offered, all, rfl⟩
  exact .pure settled₃ ⟨members, offered, musters, all, rfl⟩

/-- A container that keeps names offers what it keeps. -/
theorem containerSymbols_kept (firm : c.Firm) {body : NodeId}
    (keeps : c.tree.isWanted (Binding.keeps .locals) body) (kinds : FlagSet MemberKind)
    (s : Session) : containerSymbols c kinds .everything body s = .ok (c.kept kinds body, s) := by
  rw [Tree.isWanted_keeps, Bool.and_eq_true, Bool.not_eq_true'] at keeps
  have visible : isVisibleLocal kinds [] = fun symbol => symbol.kind.memberKind?.any kinds.has := by
    funext symbol
    simp [isVisibleLocal]
  rw [containerSymbols_eq keeps.2, map_select s fun id kept => (firm.symbols.names kept).owns,
    visible, Codebase.kept]

/-- A container that is a script offers what the script shows. -/
theorem runs_container_script (firm : c.Firm) (settled : s.Settled c) {root : NodeId}
    (isScript : c.tree.isWanted Form.isScript root) (kinds : FlagSet MemberKind) :
    Runs (settling c) s (containerSymbols c kinds .everything root) fun ids _ =>
      (∃ script, c.symbols.symbolOf root = some script ∧ c.Displays script kinds ids) ∨
        c.symbols.symbolOf root = none ∧ ids = [] := by
  have bare : (c.symbols.names .locals root).values = [] := by
    refine List.eq_nil_iff_forall_not_mem.2 fun id kept => ?_
    cases (firm.symbols.not_script_of_kept kept).symm.trans isScript
  have part : Runs (settling c) s (scriptPart c root kinds .everything) fun ids _ =>
      (∃ script, c.symbols.symbolOf root = some script ∧ c.Displays script kinds ids) ∨
        c.symbols.symbolOf root = none ∧ ids = [] := by
    have known : (!(c.tree.node? root).any (·.form.isScript)) = false := by
      simpa [Tree.isWanted] using isScript
    unfold scriptPart
    rw [known]
    cases hscript : c.symbols.symbolOf root with
    | none => exact .pure settled (.inr ⟨rfl, rfl⟩)
    | some script =>
      obtain ⟨n, hn, script'⟩ := (Option.any_eq_true _ _).1 isScript
      obtain ⟨symbol, hs, kind⟩ := firm.symbols.symbolOf_script hn script' hscript
      refine (runs_displays firm settled hs kind kinds).imp ?_
      exact fun ids t _ _ displays => .inl ⟨script, rfl, displays⟩
  refine .bind part fun ids t _ settled' shown => ?_
  rw [if_neg (by decide)]
  refine .get (.pure settled' ?_)
  rw [bare]
  simpa [select] using shown

/-- Around a node there are the names that its containers keep, from the inside out, and then what
the script shows. -/
theorem runs_surroundings (firm : c.Firm) (grown : c.tree.Grown) (top : c.tree.ScriptsOnTop)
    (settled : s.Settled c) (has : c.tree.Has node)
    (hkinds : c.tree.memberKindsAt node = .ok kinds) :
    Runs (settling c) s (localSymbols c node kinds .everything) fun ids _ => ∃ bodies shown,
      c.Surrounds node kinds bodies shown ∧ ids = bodies.flatMap (c.kept kinds) ++ shown := by
  obtain ⟨bodies, nested, ⟨root, within, isScript, around⟩ | ⟨none, around⟩⟩ :=
    Tree.exists_nested grown top has
  all_goals
    have ofBodies : bodies.mapM (containerSymbols c kinds .everything) s =
        .ok (bodies.map (c.kept kinds), s) :=
      mapM_ok fun body hbody =>
        containerSymbols_kept firm ((nested.mem_iff body).1 hbody).2 kinds s
    refine .lift around ?_
  · -- The script around a node is the only one.
    have only {script : SymbolId} (encloses : c.Encloses script node) :
        c.symbols.symbolOf root = some script := by
      obtain ⟨root', within', isScript', hscript⟩ := encloses
      have outermost {a b : NodeId} (isScript : c.tree.isWanted Form.isScript a)
          (inside : c.tree.Within a b) : b = a :=
        ((Tree.within_of_no_parent (top.parentAt_eq_none isScript)).1 inside).2
      rcases within.linear grown within' with inside | inside
      · exact outermost isScript inside ▸ hscript
      · exact outermost isScript' inside ▸ hscript
    simp only [List.mapM_append, List.mapM_cons, List.mapM_nil, bind_assoc, pure_bind]
    refine .known ofBodies (.bind (runs_container_script firm settled isScript kinds) ?_)
    refine fun shown t _ settled' ofScript =>
      .pure settled' ⟨bodies, shown, ⟨hkinds, nested, ?_⟩, by simp [List.flatMap_def]⟩
    rcases ofScript with ⟨script, hscript, displays⟩ | ⟨none, rfl⟩
    · exact .inl ⟨script, ⟨root, within, isScript, hscript⟩, displays⟩
    · refine .inr ⟨fun script encloses => ?_, rfl⟩
      cases none.symm.trans (only encloses)
  · refine .known ofBodies (.pure settled ⟨bodies, [], ⟨hkinds, nested, .inr ⟨?_, rfl⟩⟩, ?_⟩)
    · rintro script ⟨root, within, isScript, -⟩
      cases isScript.symm.trans (none root within)
    · rw [List.append_nil, List.flatMap_def]

end Query

/-! ## What a name leads to -/

/-- A name leads to the symbols that are called so, and if there are none to that of the type with
the name, which is no array. -/
def Session.Answers (c : Codebase) (s : Session) (name : String) (called found : List SymbolId) :
    Prop :=
  called ≠ [] ∧ found = called ∨ called = [] ∧
    ((∃ type info, Query.resolveType c name [] s = .ok (some type, s) ∧
      s.types.get? type = some info ∧ info.isArray = false ∧ found = [info.symbol]) ∨
    Query.resolveType c name [] s = .ok (none, s) ∧ found = [])

namespace Codebase

variable {c : Codebase} {kinds : FlagSet MemberKind} {id : SymbolId} {node container : NodeId}
  {name : String} {bodies : List NodeId} {shown : List SymbolId}

theorem IsMember.owns (firm : c.Firm) (h : c.IsMember id) : c.symbols.owns id := by
  obtain ⟨script, above, hs, -, member⟩ := h
  exact (firm.symbols.fits hs).owned id (by simp [member])

theorem Surrounds.isMember (firm : c.Firm) (h : c.Surrounds node kinds bodies shown)
    (hid : id ∈ shown) : c.IsMember id := by
  rcases h.script with ⟨script, ⟨root, -, isScript, hscript⟩, displays⟩ | ⟨-, rfl⟩
  · obtain ⟨n, hn, script'⟩ := (Option.any_eq_true _ _).1 isScript
    obtain ⟨symbol, hs, kind⟩ := firm.symbols.symbolOf_script hn script' hscript
    exact displays.isMember firm hs kind hid
  · cases hid

/-- Of the symbols around a node, every session finds those with a name. -/
theorem Surrounds.select_eq (firm : c.Firm) (h : c.Surrounds node kinds bodies shown) (s : Session)
    (name : String) :
    (s.select c (bodies.flatMap (c.kept kinds) ++ shown) (Text.sameFolded name ·.name)).map (·.1) =
      c.called kinds name bodies shown := by
  have owned : ∀ id ∈ bodies.flatMap (c.kept kinds) ++ shown, c.symbols.owns id := by
    intro id hid
    rcases List.mem_append.1 hid with inside | inside
    · obtain ⟨body, -, kept⟩ := List.mem_flatMap.1 inside
      exact (firm.symbols.names (List.mem_filter.1 kept).1).owns
    · exact (h.isMember firm inside).owns firm
  rw [Session.map_select s owned, List.filter_append, List.filter_flatMap]
  rfl

/-- A container keeps at most one symbol with a name. -/
theorem Bound.kept_once (bound : c.Bound) (kinds : FlagSet MemberKind) (name : String)
    (body : NodeId) : ((c.kept kinds body).filter (c.isCalled name)).length ≤ 1 := by
  obtain ⟨b, run, same⟩ := bound.exists_binding
  have filed : Binding.Filed c.symbols := same ▸ (Binding.ofTree_accounted run).filed
  have nodup : (c.symbols.names .locals body).values.Nodup :=
    same ▸ Binding.nodup_values_ofTree run .locals body
  -- Names that agree up to ASCII case have one lower-case form, and so one entry.
  have entry {id : SymbolId} (hid : id ∈ (c.kept kinds body).filter (c.isCalled name)) :
      (c.symbols.names .locals body).find? (Text.lowercase name) = some id := by
    obtain ⟨kept, called⟩ := List.mem_filter.1 hid
    obtain ⟨symbol, hs, found⟩ := filed (List.mem_filter.1 kept).1
    rw [isCalled, hs, Option.any_some] at called
    rwa [Text.lowercase_eq_of_sameFolded called]
  have once : ((c.kept kinds body).filter (c.isCalled name)).Nodup := (nodup.filter _).filter _
  cases found : (c.kept kinds body).filter (c.isCalled name) with
  | nil => exact Nat.zero_le _
  | cons first rest =>
    rw [found] at entry once
    cases rest with
    | nil => exact Nat.le_refl _
    | cons second rest =>
      have one := entry (List.mem_cons_self : first ∈ first :: second :: rest)
      have two := entry (by simp : second ∈ first :: second :: rest)
      obtain rfl := Option.some.inj (one.symm.trans two)
      simp at once

end Codebase

namespace Inference

open Query Session

variable {c : Codebase} {s : Session} {k : Inference} {node : NodeId} {kinds : FlagSet MemberKind}
  {name : String}

/-- What a name leads to is found from the inside out. -/
theorem runs_answers (firm : c.Firm) (grown : c.tree.Grown) (top : c.tree.ScriptsOnTop)
    (settled : s.Settled c) (has : c.tree.Has node) (unbased : c.tree.baseFor node = .ok none)
    (hkinds : c.tree.memberKindsAt node = .ok kinds)
    (notSelf : Text.sameFolded name "self" = false)
    (notParent : Text.sameFolded name "parent" = false) :
    Runs (settling c) s (k.matching c node name .everything) fun found t => ∃ bodies shown,
      c.Surrounds node kinds bodies shown ∧
        t.Answers c name (c.called kinds name bodies shown) found := by
  obtain ⟨script, around, -⟩ := scriptAround_eq firm.symbols has
  refine .known (around s) ?_
  rw [notSelf, notParent]
  have listed : Runs (settling c) s (k.available c node kinds .everything) fun search _ =>
      search.base = none ∧ ∃ bodies shown, c.Surrounds node kinds bodies shown ∧
        search.symbols = bodies.flatMap (c.kept kinds) ++ shown := by
    refine .lift unbased (.bind (runs_surroundings firm grown top settled has hkinds) ?_)
    exact fun ids t _ settled' surrounds => .pure settled' ⟨rfl, surrounds⟩
  refine .lift hkinds (.bind listed ?_)
  rintro ⟨_, _⟩ t - settled' ⟨rfl, bodies, shown, surrounds, rfl⟩
  refine .known (withName_eq c name _ t) ?_
  rw [surrounds.select_eq firm]
  cases hcalled : c.called kinds name bodies shown with
  | cons first rest =>
    refine .pure settled' ⟨bodies, shown, surrounds, .inl ⟨by simp [hcalled], hcalled.symm⟩⟩
  | nil =>
    refine .bind (runs_resolveAgain firm settled' name) ?_
    rintro found u - settled'' ⟨again, known⟩
    cases found with
    | none =>
      exact .pure settled'' ⟨bodies, shown, surrounds, .inr ⟨hcalled, .inr ⟨again, rfl⟩⟩⟩
    | some type =>
      obtain ⟨info, hi, notArray⟩ := known type rfl
      refine .known (typeInfo_eq hi) (.pure settled'' ⟨bodies, shown, surrounds, .inr ⟨hcalled,
        .inl ⟨type, info, again, hi, notArray, ?_⟩⟩⟩)
      rw [notArray]
      rfl

end Inference

namespace Codebase

variable {c : Codebase} {kinds : FlagSet MemberKind} {id : SymbolId} {node container : NodeId}
  {name : String} {bodies : List NodeId} {shown : List SymbolId}

/-- A symbol is kept by one container. -/
theorem Declares.keeper_unique (h : c.Declares) {other : NodeId}
    (held : id ∈ (c.symbols.names .locals container).values)
    (held' : id ∈ (c.symbols.names .locals other).values) : container = other := by
  obtain ⟨symbol, node, hs, hd, keeper⟩ := h.symbols.names held
  obtain ⟨symbol', node', hs', hd', keeper'⟩ := h.symbols.names held'
  cases hs.symm.trans hs'
  cases hd.symm.trans hd'
  exact Option.some.inj (Except.ok.inj (keeper.symm.trans keeper'))

/-- No container keeps a script. -/
theorem Declares.not_script_of_held (h : c.Declares) {symbol : Symbol}
    (hs : c.symbols.get? id = some symbol)
    (held : id ∈ (c.symbols.names .locals container).values) : symbol.kind ≠ .script := by
  intro kind
  obtain ⟨symbol', node, hs', hd, keeper⟩ := h.symbols.names held
  cases hs.symm.trans hs'
  obtain ⟨node', identifier, hd', hk, -⟩ := (h.symbols.fits hs).declared
  cases hd.symm.trans hd'
  rw [kind] at hk
  obtain ⟨n, hn⟩ := Tree.node?_of_declaration? hk
  have top := h.top.parentAt_eq_none ((Binding.isWanted_of_formAt (Tree.formAt_eq hn) _).trans
    (Tree.isScript_of_declaration? hn hk))
  cases h.symbols.innermost_of_keeper h.wellFormed.grown hs hd keeper with
  | parent above => cases top.symm.trans above
  | outer above => cases top.symm.trans above

/-- What is called so around a node is kept by a container around it or lifted by a state. -/
theorem Surrounds.within_or_lifts (h : c.Surrounds node kinds bodies shown) (firm : c.Firm)
    (declares : c.Declares) (hid : id ∈ c.called kinds name bodies shown)
    (held : id ∈ (c.symbols.names .locals container).values) :
    c.tree.Within node container ∨ c.Lifts container id := by
  rcases List.mem_append.1 hid with inside | inside
  · obtain ⟨body, hbody, found⟩ := List.mem_flatMap.1 inside
    have kept := (List.mem_filter.1 (List.mem_filter.1 found).1).1
    obtain rfl := declares.keeper_unique held kept
    exact .inl ((h.nested.mem_iff container).1 hbody).1
  · exact .inr (declares.lifts (h.isMember firm (List.mem_filter.1 inside).1) held)

end Codebase

/-- If a container keeps the symbol of a type, then a state lifts it. -/
theorem Session.Lodged.lifts {c : Codebase} {s : Session} (h : s.Lodged c) (declares : c.Declares)
    {type : TypeId} {info : TypeInfo} {container : NodeId} (hi : s.types.get? type = some info)
    (held : info.symbol ∈ (c.symbols.names .locals container).values) :
    c.Lifts container info.symbol := by
  have fits := h.infos hi
  have owned := (declares.symbols.names held).owns
  cases hf : info.form with
  | intrinsic kind => exact absurd owned (fits.foreign (.inl (by simp [TypeInfo.isIntrinsic, hf])))
  | array element => exact absurd owned (fits.foreign (.inr (by simp [TypeInfo.isArray, hf])))
  | script table =>
    obtain ⟨symbol, hs, kind, -⟩ := fits.script (by simp [TypeInfo.isScript, hf])
    exact absurd kind (declares.not_script_of_held hs held)
  | struct above =>
    obtain ⟨script, entry, ⟨⟨symbol, hs, kind, member⟩, -⟩, same⟩ :=
      h.structs hi (by simp [TypeInfo.isStruct, hf])
    exact declares.lifts ⟨script, symbol, hs, kind, same ▸ member⟩ held

namespace Query

open Session

variable {c : Codebase} {s : Session} {node : NodeId} {name : String}

/-- A name that stands for no script leads to the symbols with the name that the containers around
the node keep, at most one for each and the innermost container first, and then to those that the
script shows. If there are none, it leads to the symbol of the type with the name. What it leads to
is not kept by any other container, unless a state lifts it into its script. -/
theorem found_from_inside_out (bound : c.Bound) (wf : c.tree.WellFormed)
    (top : c.tree.ScriptsOnTop) (apart : c.ScriptsApart) (arises : s.Arises c)
    (has : c.tree.Has node) (unbased : c.tree.baseFor node = .ok none)
    (notSelf : Text.sameFolded name "self" = false)
    (notParent : Text.sameFolded name "parent" = false) :
    ∃ kinds bodies shown found t, c.Surrounds node kinds bodies shown ∧
      matching c node name .everything s = .ok (found, t) ∧
      t.Answers c name (c.called kinds name bodies shown) found ∧
      (∀ body, ((c.kept kinds body).filter (c.isCalled name)).length ≤ 1) ∧
      (∀ id ∈ found, ∀ container, id ∈ (c.symbols.names .locals container).values →
        c.tree.Within node container ∨ c.Lifts container id) ∧
      ∀ inner body outer id, bodies = inner ++ body :: outer →
        (∀ other ∈ inner, (c.kept kinds other).filter (c.isCalled name) = []) →
        id ∈ (c.kept kinds body).filter (c.isCalled name) → found.head? = some id := by
  have firm := bound.firm apart
  have declares := bound.declares wf top
  obtain ⟨kinds, hkinds⟩ := Tree.memberKindsAt_eq_ok has
  obtain ⟨found, t, run, -, -, bodies, shown, surrounds, answers⟩ := exists_ok_of_settling
    (Inference.runs_answers (k := c.inference) firm wf.grown top (arises.settled firm) has unbased
      hkinds notSelf notParent)
  have lodged : t.Lodged c :=
    ((steps_lodging firm).asks (.matching (.any _) _ _) (arises.lodged firm) run).2
  refine ⟨kinds, bodies, shown, found, t, surrounds, run, answers, bound.kept_once kinds name,
    ?_, ?_⟩
  · intro id hid container held
    rcases answers with ⟨-, rfl⟩ | ⟨-, ⟨type, info, -, hi, -, rfl⟩ | ⟨-, rfl⟩⟩
    · exact surrounds.within_or_lifts firm declares hid held
    · cases List.mem_singleton.1 hid
      exact .inr (lodged.lifts declares hi held)
    · cases hid
  · rintro inner body outer id rfl none hid
    have before : inner.flatMap (fun other => (c.kept kinds other).filter (c.isCalled name)) = [] :=
      List.flatMap_eq_nil_iff.2 none
    have only : (c.kept kinds body).filter (c.isCalled name) = [id] := by
      have once := bound.kept_once kinds name body
      cases hfound : (c.kept kinds body).filter (c.isCalled name) with
      | nil => simp [hfound] at hid
      | cons first rest =>
        rw [hfound] at once hid
        rw [List.length_cons] at once
        obtain rfl : rest = [] := List.eq_nil_of_length_eq_zero (by omega)
        rw [List.mem_singleton.1 hid]
    have first : (c.called kinds name (inner ++ body :: outer) shown).head? = some id := by
      simp [Codebase.called, before, only]
    rcases answers with ⟨-, rfl⟩ | ⟨none', -⟩
    · exact first
    · simp [none'] at first

/-- A name that is declared three times, in a branch, in the function around it and in the script:

    ScriptName A
    Int X
    Function F(Int x)
      If True
        Int x
        X
      EndIf
    EndFunction -/
def shadowForms : List Form :=
  [.identifier "A", .scriptHeader ⟨0⟩ none ∅,
    .identifier "Int", .typeName ⟨2⟩ false, .identifier "X", .variableDefinition ⟨3⟩ ⟨4⟩ none ∅,
    .identifier "F", .identifier "Int", .typeName ⟨7⟩ false, .identifier "x",
    .parameter ⟨8⟩ ⟨9⟩ none false, .parameterList [⟨10⟩], .functionHeader none ⟨6⟩ ⟨11⟩ ∅,
    .literal (.bool true), .literalExpression ⟨13⟩,
    .identifier "Int", .typeName ⟨15⟩ false, .identifier "x", .declaration ⟨16⟩ ⟨17⟩ none,
    .identifier "X", .reference ⟨19⟩, .expressionStatement ⟨20⟩,
    .ifBranch (some ⟨14⟩) [⟨18⟩, ⟨21⟩], .ifChain [⟨22⟩], .function ⟨12⟩ [⟨23⟩],
    .script ⟨1⟩ [] [⟨5⟩, ⟨24⟩]]

theorem shadowed_found_from_inside_out : ∃ (c : Codebase) (s : Session),
    c.tree = .ofForms shadowForms ∧ c.Bound ∧ c.tree.WellFormed ∧ c.tree.ScriptsOnTop ∧
    c.ScriptsApart ∧ s.Arises c ∧ c.tree.Has ⟨19⟩ ∧ c.tree.baseFor ⟨19⟩ = .ok none ∧
    Text.sameFolded "X" "self" = false ∧ Text.sameFolded "X" "parent" = false ∧
    ∃ kinds bodies shown t, c.Surrounds ⟨19⟩ kinds bodies shown ∧
      matching c ⟨19⟩ "X" .everything s = .ok ([⟨4⟩, ⟨3⟩, ⟨1⟩], t) ∧
      c.called kinds "X" bodies shown = [⟨4⟩, ⟨3⟩, ⟨1⟩] := by
  obtain ⟨c, s, same, bound, wf, top, apart, arises, fits⟩ := exists_session shadowForms
    (fun c s => (matching c ⟨19⟩ "X" .everything s).toOption.any
      fun (r : List SymbolId × Session) => decide (r.1 = [⟨4⟩, ⟨3⟩, ⟨1⟩]))
    (by decide +kernel) (by decide +kernel) (by decide +kernel) (by decide +kernel)
  obtain ⟨⟨ids, u⟩, run, ids_eq⟩ := exists_ok_of_any fits
  obtain rfl : ids = [⟨4⟩, ⟨3⟩, ⟨1⟩] := of_decide_eq_true ids_eq
  have has : c.tree.Has ⟨19⟩ := same ▸ by decide +kernel
  have unbased : c.tree.baseFor ⟨19⟩ = .ok none := same ▸ by decide +kernel
  have notSelf : Text.sameFolded "X" "self" = false := by decide
  have notParent : Text.sameFolded "X" "parent" = false := by decide
  obtain ⟨kinds, bodies, shown, found, t, surrounds, run', answers, -⟩ :=
    found_from_inside_out bound wf top apart arises has unbased notSelf notParent
  cases run.symm.trans run'
  refine ⟨c, s, same, bound, wf, top, apart, arises, has, unbased, notSelf, notParent, kinds,
    bodies, shown, u, surrounds, run, ?_⟩
  rcases answers with ⟨-, same⟩ | ⟨-, ⟨type, info, -, -, -, one⟩ | ⟨-, none⟩⟩
  · exact same.symm
  · simp at one
  · cases none

/-- A state with a function, and another function:

    ScriptName A
    State St
      Function G()
      EndFunction
    EndState
    Function F()
    EndFunction -/
def stateForms : List Form :=
  [.identifier "A", .scriptHeader ⟨0⟩ none ∅,
    .identifier "St", .identifier "G", .parameterList [], .functionHeader none ⟨3⟩ ⟨4⟩ ∅,
    .function ⟨5⟩ [], .state ⟨2⟩ false [⟨6⟩],
    .identifier "F", .parameterList [], .functionHeader none ⟨8⟩ ⟨9⟩ ∅, .function ⟨10⟩ [],
    .script ⟨1⟩ [] [⟨7⟩, ⟨11⟩]]

/-- Two scripts with one name:

    ScriptName A
    Function X()
    EndFunction

    ScriptName A
    Function Y()
    EndFunction
    Function F()
    EndFunction -/
def namesakeForms : List Form :=
  [.identifier "A", .scriptHeader ⟨0⟩ none ∅,
    .identifier "X", .parameterList [], .functionHeader none ⟨2⟩ ⟨3⟩ ∅, .function ⟨4⟩ [],
    .script ⟨1⟩ [] [⟨5⟩],
    .identifier "A", .scriptHeader ⟨7⟩ none ∅,
    .identifier "Y", .parameterList [], .functionHeader none ⟨9⟩ ⟨10⟩ ∅, .function ⟨11⟩ [],
    .identifier "F", .parameterList [], .functionHeader none ⟨13⟩ ⟨14⟩ ∅, .function ⟨15⟩ [],
    .script ⟨8⟩ [] [⟨12⟩, ⟨16⟩]]

/-- What a state keeps is found from outside of the state, and a member of a script is not found in
the script if another one with its name has a type. -/
theorem state_leaks_and_namesake_hides :
    (∃ (c : Codebase) (s t : Session), c.tree = .ofForms stateForms ∧ c.Bound ∧
      c.tree.WellFormed ∧ c.tree.ScriptsOnTop ∧ s.Arises c ∧ c.tree.baseFor ⟨11⟩ = .ok none ∧
      matching c ⟨11⟩ "G" .everything s = .ok ([⟨2⟩], t) ∧
      ⟨2⟩ ∈ (c.symbols.names .locals ⟨7⟩).values ∧ ¬ c.tree.Within ⟨11⟩ ⟨7⟩) ∧
    ∃ (c : Codebase) (s t : Session) (symbol : Symbol), c.tree = .ofForms namesakeForms ∧
      c.Bound ∧ c.tree.WellFormed ∧ c.tree.ScriptsOnTop ∧ s.Arises c ∧
      c.tree.baseFor ⟨16⟩ = .ok none ∧ c.Encloses ⟨2⟩ ⟨16⟩ ∧ c.Lists ⟨2⟩ ⟨3⟩ symbol ∧
      Text.sameFolded "Y" symbol.name ∧ matching c ⟨16⟩ "Y" .everything s = .ok ([], t) := by
  constructor
  · obtain ⟨c, s, same, bound, wf, top, -, arises, fits⟩ := exists_session stateForms
      (fun c s => (c.symbols.names .locals ⟨7⟩).values.contains ⟨2⟩ &&
        (matching c ⟨11⟩ "G" .everything s).toOption.any
          fun (r : List SymbolId × Session) => decide (r.1 = [⟨2⟩]))
      (by decide +kernel) (by decide +kernel) (by decide +kernel) (by decide +kernel)
    obtain ⟨kept, fits⟩ := Bool.and_eq_true_iff.1 fits
    obtain ⟨⟨ids, t⟩, run, ids_eq⟩ := exists_ok_of_any fits
    obtain rfl : ids = [⟨2⟩] := of_decide_eq_true ids_eq
    exact ⟨c, s, t, same, bound, wf, top, arises, same ▸ by decide +kernel, run,
      List.contains_iff_mem.1 kept, same ▸ by decide +kernel⟩
  · obtain ⟨p, run, fits⟩ := exists_ok_of_any (o := Program.ofTree (.ofForms namesakeForms))
      (f := fun p => decide (p.tree = .ofForms namesakeForms ∧
          p.codebase.symbols.symbolOf ⟨17⟩ = some ⟨2⟩) &&
        ((p.codebase.symbols.get? ⟨2⟩).any fun (above : Symbol) => above.members.contains ⟨3⟩) &&
        ((p.codebase.symbols.get? ⟨3⟩).any fun (symbol : Symbol) =>
          Text.sameFolded "Y" symbol.name) &&
        (Session.start p.codebase).toOption.any fun s =>
          ((Question.resolveType "A" []).ask p.codebase s).toOption.any fun (q : Unit × Session) =>
            (matching p.codebase ⟨16⟩ "Y" .everything q.2).toOption.any
              fun (r : List SymbolId × Session) => decide (r.1 = []))
      (by decide +kernel)
    simp only [Bool.and_eq_true, decide_eq_true_eq] at fits
    obtain ⟨⟨⟨⟨tree, ofRoot⟩, listed⟩, named⟩, fits⟩ := fits
    obtain ⟨above, hs, member⟩ := (Option.any_eq_true _ _).1 listed
    obtain ⟨symbol, known, called⟩ := (Option.any_eq_true _ _).1 named
    obtain ⟨s, started, fits⟩ := exists_ok_of_any fits
    obtain ⟨⟨_, t⟩, asked, fits⟩ := exists_ok_of_any fits
    obtain ⟨⟨ids, u⟩, answer, nothing⟩ := exists_ok_of_any fits
    obtain rfl : ids = [] := of_decide_eq_true nothing
    have same : p.codebase.tree = .ofForms namesakeForms := tree
    have wf : p.codebase.tree.WellFormed :=
      same ▸ ⟨Tree.grown_ofForms (by decide), by decide +kernel, by decide +kernel⟩
    exact ⟨p.codebase, t, u, symbol, same, .program run, wf, same ▸ by decide +kernel,
      ⟨s, started, .ask _ .refl asked⟩, same ▸ by decide +kernel,
      ⟨⟨17⟩, same ▸ by decide +kernel, same ▸ by decide +kernel, ofRoot⟩,
      ⟨above, hs, List.contains_iff_mem.1 member, known⟩, called, answer⟩

end Query

end PapyrusAnalysis
