import PapyrusAnalysis.Proofs.Binding.Titles
import PapyrusAnalysis.Proofs.Session.Lexical

/-!
# What is declared can be named

The name of a declaration is looked up at the declaration itself like any other name. It leads to
something unless the declaration is eclipsed: the container that keeps its name has the lower-case
form of the name for another declaration, and the two names differ in more than the case of ASCII
letters. A member of a script is never eclipsed, nor is a script.

## Main definitions

* `Codebase.Regular`: what a builder makes of scripts that follow the grammar.
* `Codebase.Announces`: something is declared at a node in a script.
* `Codebase.Ousted`: the name of a declaration is kept for another one.
* `Codebase.Eclipsed`: it is kept for one with a different name.

## Main statements

* `Codebase.Announces.runs_found`: the name of a declaration leads to something.
-/

namespace PapyrusAnalysis

namespace Tree.Grammatical

variable {t : Tree} {x root body : NodeId}

/-- What is around a node in a script is in the script. -/
theorem within_of_around (h : t.Grammatical) (grown : t.Grown)
    (hroot : t.isWanted Form.isScript root) (within : t.Within x root) (around : t.Within x body) :
    t.Within body root := by
  rcases around.linear grown within with inside | inside
  · exact inside
  · obtain ⟨has, rfl⟩ := (within_of_no_parent (h.parentAt_script grown hroot)).1 inside
    exact .refl has

/-- The script around a node is found, whatever else is around it. -/
theorem scriptOf_of_within (h : t.Grammatical) (grown : t.Grown)
    (hroot : t.isWanted Form.isScript root) (within : t.Within x root) :
    t.scriptOf x = .ok (some root) := by
  obtain ⟨has, place⟩ := within_iff.1 within
  obtain ⟨n, hn⟩ := has.node?
  rw [scriptOf, lineage_eq (formAt_eq hn)]
  refine congrArg Except.ok ?_
  cases found : (x :: t.outward x).find? fun a => (t.node? a).any (·.form.isScript) with
  | none => exact absurd hroot (List.find?_eq_none.1 found root (List.mem_cons.2 place))
  | some other =>
    have around : t.Within x other :=
      within_iff.2 ⟨has, List.mem_cons.1 (List.mem_of_find?_eq_some found)⟩
    rw [h.eq_of_script grown hroot within (List.find?_some found) around]

end Tree.Grammatical

namespace Codebase

open Binding

variable {c : Codebase}

/-- A codebase that comes about by binding a tree of scripts which was built in grammatical shapes.
Every node is used once, every declaration has a name, and scripts stand apart. -/
structure Regular (c : Codebase) : Prop where
  bound : c.Bound
  apart : c.ScriptsApart
  built : ∃ b ids, Builder.Built b ids ∧ b.tree = c.tree
  once : c.tree.UsesOnce
  grammatical : c.tree.Grammatical
  named : c.tree.Named

namespace Regular

variable (h : c.Regular)

include h

theorem wellFormed : c.tree.WellFormed := by
  obtain ⟨b, ids, built, same⟩ := h.built
  rw [← same]
  exact built.wellFormed (same ▸ h.once)

theorem limited : c.tree.Limited := by
  obtain ⟨b, ids, built, same⟩ := h.built
  exact same ▸ built.limited

theorem grown : c.tree.Grown := h.wellFormed.grown

theorem top : c.tree.ScriptsOnTop := h.grammatical.scriptsOnTop h.grown

theorem firm : c.Firm := h.bound.firm h.apart

theorem declares : c.Declares := h.bound.declares h.wellFormed h.top

theorem sound : c.Sound :=
  h.bound.sound h.grown h.wellFormed.descending (h.grammatical.shielded h.grown)

theorem ordered : c.tree.Ordered := by
  obtain ⟨b, ids, built, same⟩ := h.built
  exact same ▸ built.ordered

end Regular

/-- Something other than an import is declared at a node in a script. -/
structure Announces (c : Codebase) (root x : NodeId) (kind : SymbolKind) (identifier : NodeId) :
    Prop where
  script : c.tree.isWanted Form.isScript root
  within : c.tree.Within x root
  declared : c.tree.declaration? x = some (kind, identifier)
  genuine : kind ≠ .importLine

theorem announces_iff {root x identifier : NodeId} {kind : SymbolKind} :
    c.Announces root x kind identifier ↔ c.tree.isWanted Form.isScript root ∧
      c.tree.Within x root ∧ c.tree.declaration? x = some (kind, identifier) ∧
        kind ≠ .importLine := by
  constructor <;>
  · rintro ⟨script, within, declared, genuine⟩
    exact ⟨script, within, declared, genuine⟩

instance {root x identifier : NodeId} {kind : SymbolKind} :
    Decidable (c.Announces root x kind identifier) :=
  decidable_of_iff _ announces_iff.symm

/-- The container that keeps the name of a declaration keeps it for another one. -/
def Ousted (c : Codebase) (x : NodeId) (kind : SymbolKind) (identifier : NodeId) : Prop :=
  ∃ container holder, place? c.tree kind x = some (.locals, container) ∧
    (c.symbols.names .locals container).find? (Text.lowercase (c.tree.nameAt identifier)) =
      some holder ∧ ¬ DeclaredAt c.symbols holder x

/-- The container that keeps the name of a declaration keeps it for another one, whose name differs
in more than the case of ASCII letters. -/
def Eclipsed (c : Codebase) (x : NodeId) (kind : SymbolKind) (identifier : NodeId) : Prop :=
  ∃ container holder symbol, place? c.tree kind x = some (.locals, container) ∧
    (c.symbols.names .locals container).find? (Text.lowercase (c.tree.nameAt identifier)) =
      some holder ∧ c.symbols.get? holder = some symbol ∧
    Text.sameFolded (c.tree.nameAt identifier) symbol.name = false

variable {root x identifier container : NodeId} {kind : SymbolKind} {id : SymbolId}
  {symbol : Symbol} {kinds : FlagSet MemberKind} {bodies : List NodeId} {shown : List SymbolId}

/-! ## Symbols of declarations -/

theorem exists_declaredAt {symbols : SymbolTable} (hx : x ∈ Binding.nodes symbols) :
    ∃ id, DeclaredAt symbols id x := by
  obtain ⟨i, -, found⟩ := List.mem_filterMap.1 hx
  obtain ⟨symbol, hs, hd⟩ := Option.bind_eq_some_iff.1 found
  exact ⟨⟨i⟩, symbol, hs, hd⟩

/-- A symbol with the kind and the name of a declaration is declared there. -/
structure Represents (c : Codebase) (id : SymbolId) (symbol : Symbol) (x : NodeId)
    (kind : SymbolKind) (identifier : NodeId) : Prop where
  known : c.symbols.get? id = some symbol
  declared : symbol.declaration = some x
  kind : symbol.kind = kind
  name : symbol.name = c.tree.nameAt identifier

namespace Announces

variable (a : c.Announces root x kind identifier) (h : c.Regular)

include a h

theorem isNamed : isNamed c.tree identifier := h.named a.declared a.genuine

theorem filled : (c.tree.nameAt identifier).isEmpty = false := by
  simpa [Binding.isNamed] using a.isNamed h

theorem titled : Titled c.tree kind x identifier :=
  Binding.titled h.grammatical h.wellFormed a.declared a.genuine

/-- Every declaration has a symbol. -/
theorem exists_symbol : ∃ id symbol, c.Represents id symbol x kind identifier := by
  have listed := mem_scriptNodes h.grammatical h.wellFormed h.named a.script a.within a.declared
    a.genuine
  obtain ⟨n, hn, isScript⟩ := (Option.any_eq_true _ _).1 a.script
  have isRoot : root ∈ c.tree.roots := h.grown.mem_roots.2 ⟨n, hn, isScript⟩
  have made : x ∈ Binding.nodes c.symbols :=
    h.declares.nodes ▸ List.mem_flatMap.2 ⟨root, isRoot, listed⟩
  obtain ⟨id, symbol, hs, hd⟩ := exists_declaredAt made
  obtain ⟨x', identifier', hd', hk, hname⟩ := (h.declares.symbols.fits hs).declared
  cases hd.symm.trans hd'
  cases a.declared.symm.trans hk
  exact ⟨id, symbol, hs, hd, rfl, by simp [hname, title, a.filled h]⟩

/-- The script that a declaration lies in is declared too. -/
theorem ofScript : ∃ title, c.Announces root root .script title := by
  obtain ⟨form, hf, isScript⟩ := isWanted_iff.1 a.script
  cases form <;> simp only [Form.isScript, Bool.false_eq_true] at isScript
  obtain ⟨title, extended, modifiers, hg⟩ := header_of_script h.grammatical hf
  refine ⟨title, a.script, .refl (Tree.has_of_formAt hf), ?_, by decide⟩
  simp [Tree.declaration?, hf, hg]

/-- The script around the identifier of a declaration is the one that the declaration lies in. -/
theorem exists_script : ∃ script above, c.symbols.get? script = some above ∧
    above.kind = .script ∧ above.declaration = some root ∧
    ∀ other, c.Encloses other identifier ↔ other = script := by
  obtain ⟨title, ofRoot⟩ := a.ofScript h
  obtain ⟨script, above, known, declared, kind, -⟩ := ofRoot.exists_symbol h
  have found : c.symbols.symbolOf root = some script :=
    (h.declares.symbols.symbolOf_iff h.declares.nodup).2 ⟨above, known, declared⟩
  have inside : c.tree.Within identifier root :=
    ((a.titled h).within h.wellFormed).trans h.grown a.within
  refine ⟨script, above, known, kind, declared, fun other => ⟨?_, ?_⟩⟩
  · rintro ⟨root', within, isScript, hother⟩
    obtain rfl := h.grammatical.eq_of_script h.grown a.script inside isScript within
    exact Option.some.inj (hother.symm.trans found)
  · rintro rfl
    exact ⟨root, inside, a.script, found⟩

/-- No member access is around the identifier of a declaration. -/
theorem unbased : c.tree.baseFor identifier = .ok none := by
  have titled := a.titled h
  refine Tree.baseFor_of_around (Tree.has_of_formAt titled.named) fun other around => ?_
  rcases titled.outline_around h.grammatical h.wellFormed around with rfl | outline
  · rw [isWanted_of_formAt titled.named]
    rfl
  · obtain ⟨form, hf, isOutline⟩ := isWanted_iff.1 outline
    rw [isWanted_of_formAt hf]
    cases form <;> first | rfl | cases isOutline

end Announces

/-! ## Members -/

/-- The members of a script are the symbols of the nodes that may become members. -/
theorem Declares.mem_members (h : c.Declares) {script : SymbolId} {above : Symbol}
    {header : NodeId} {imports definitions : List NodeId}
    (hs : c.symbols.get? script = some above) (hd : above.declaration = some root)
    (hroot : c.tree.formAt root = some (.script header imports definitions))
    (hm : x ∈ memberNodes c.tree definitions) (declared : DeclaredAt c.symbols id x) :
    id ∈ above.members := by
  have symbolOf {node : NodeId} {id : SymbolId} :
      c.symbols.symbolOf node = some id ↔ DeclaredAt c.symbols id node :=
    h.symbols.symbolOf_iff h.nodup
  have bound : ∀ node, c.symbols.symbolOf node ≠ none →
      node ∈ c.tree.roots.flatMap (scriptNodes c.tree) := by
    intro node hn
    obtain ⟨other, ho⟩ := Option.ne_none_iff_exists'.1 hn
    obtain ⟨symbol, hs, hd⟩ := symbolOf.1 ho
    exact h.nodes ▸ h.symbols.mem_nodes hs hd
  have parts := (h.furnished hs).members hd (ownParts?_script hroot)
  rw [eq_filterMap_of_forall₂ symbolOf.2 parts,
    filterMap_boundMemberNodes h.wellFormed h.top hroot bound]
  exact List.mem_filterMap.2 ⟨x, hm, symbolOf.2 declared⟩

theorem admits_everything (symbol : Symbol) : Filter.everything.admits symbol := by
  have scope (isGlobal : Bool) : Filter.everything.admitsScope isGlobal = true := by
    cases isGlobal <;> decide
  have nativity (isNative : Bool) : Filter.everything.admitsNativity isNative = true := by
    cases isNative <;> decide
  have auto (isAuto : Bool) : Filter.everything.admitsAuto isAuto = true := by
    cases isAuto <;> decide
  have access (isReadOnly : Bool) : Filter.everything.admitsAccess isReadOnly = true := by
    cases isReadOnly <;> decide
  unfold Filter.admits
  split <;> simp [Filter.admitsFunction, Filter.admitsProperty, Filter.admitsState, scope,
    nativity, auto, access]

/-- A script shows its members of the kinds that are asked for. -/
theorem Displays.mem_of_member {script : SymbolId} {above : Symbol} {of : MemberKind}
    (displays : c.Displays script kinds shown) (hs : c.symbols.get? script = some above)
    (member : id ∈ above.members) (known : c.symbols.get? id = some symbol)
    (same : symbol.kind = of.symbolKind) (allowed : kinds.has of) : id ∈ shown := by
  obtain ⟨members, offered, ⟨hierarchy, ascends, rfl⟩, -, rfl⟩ := displays
  have own : id ∈ c.ownMembers .everything of script :=
    mem_ownMembers.2 ⟨above, hs, member, symbol, known, by
      simp [Filter.wants, same, admits_everything]⟩
  have enabled : Filter.everything.enables of := by cases of <;> decide
  have listed : id ∈ c.listedMembers .everything hierarchy script of := by
    cases inherited : of.isInherited with
    | true =>
      rw [listedMembers_inherited inherited enabled (by decide) (by decide)]
      exact List.mem_flatMap.2 ⟨script, (ascends.mem_iff script).2 .refl, own⟩
    | false => rwa [listedMembers_own inherited enabled]
  refine List.mem_append_left _ (List.mem_flatMap.2 ⟨of, List.mem_filter.2 ⟨?_, allowed⟩, listed⟩)
  cases of <;> decide

/-! ## Kept names -/

/-- No container keeps the name of an import. -/
theorem Regular.not_innermost_of_import (h : c.Regular) {title : NodeId}
    (hx : c.tree.formAt x = some (.importLine title)) :
    ¬ c.tree.Innermost (keeps .locals) x container := by
  intro innermost
  have inScript {p : NodeId} (hp : c.tree.parentAt x = some p) :
      c.tree.isWanted Form.isScript p := by
    obtain ⟨form, above, role, hx', ha, slot, admitted⟩ := h.grammatical.exists_slot h.grown hp
    cases hx.symm.trans hx'
    cases role <;> simp only [Role.admits, isImport, Bool.false_eq_true] at admitted <;>
      try (cases admitted; done)
    rw [isWanted_of_formAt ha]
    cases above <;> first | rfl | simp [Form.slots] at slot
  obtain ⟨p, hp⟩ : ∃ p, c.tree.parentAt x = some p := by
    cases innermost with
    | parent above => exact ⟨_, above⟩
    | outer above => exact ⟨_, above⟩
  exact not_innermost_of_top h.grammatical h.grown (inScript hp) hp innermost

/-- What a container in a script keeps is declared in the script. -/
theorem Regular.announces_of_kept (h : c.Regular) (script : c.tree.isWanted Form.isScript root)
    (inside : c.tree.Within container root) (hs : c.symbols.get? id = some symbol)
    (held : id ∈ (c.symbols.names .locals container).values) :
    ∃ y title, c.Represents id symbol y symbol.kind title ∧ symbol.kind ≠ .script ∧
      c.Announces root y symbol.kind title ∧ c.tree.Innermost (keeps .locals) y container := by
  obtain ⟨symbol', y, hs', hd, keeper⟩ := h.declares.symbols.names held
  cases hs.symm.trans hs'
  have innermost := h.declares.symbols.innermost_of_keeper h.grown hs hd keeper
  obtain ⟨y', title, hd', hk, hname⟩ := (h.declares.symbols.fits hs).declared
  cases hd.symm.trans hd'
  have genuine : symbol.kind ≠ .importLine := by
    intro kind
    rw [kind] at hk
    obtain ⟨n, hn⟩ := Tree.node?_of_declaration? hk
    rw [Tree.declaration?, Tree.formAt_eq hn] at hk
    cases hf : n.form <;> simp only [hf] at hk <;> try grind
    exact h.not_innermost_of_import (Tree.formAt_eq hn |>.trans (congrArg some hf)) innermost
  have announces : c.Announces root y symbol.kind title :=
    ⟨script, (innermost.within h.grown).trans h.grown inside, hk, genuine⟩
  exact ⟨y, title, ⟨hs, hd, rfl, by simp [hname, Binding.title, announces.filled h]⟩,
    h.declares.not_script_of_held hs held, announces, innermost⟩

/-- A limit admits what has it. -/
theorem has_limitOf {of : MemberKind} (notGroup : kind ≠ .group) (notState : kind ≠ .state)
    (same : kind.memberKind? = some of) : ((limitOf kind).getD MemberKind.anywhere).has of := by
  cases kind <;> cases same <;> first | contradiction | decide

namespace Announces

variable (a : c.Announces root x kind identifier) (h : c.Regular)

include a h

theorem place?_of_innermost (table : tableOf kind = some .locals)
    (innermost : c.tree.Innermost (keeps .locals) x container) :
    place? c.tree kind x = some (.locals, container) := by
  obtain ⟨n, hn⟩ := Tree.node?_of_declaration? a.declared
  have keeper : keeper? c.tree .locals x = .ok (some container) := by
    rw [keeper?, Tree.ancestors_eq (Tree.formAt_eq hn)]
    exact congrArg Except.ok (h.grown.innermost_iff.1 innermost)
  exact place?_of_keeper table keeper

/-- A container that keeps the name of a declaration keeps it for some symbol. -/
theorem exists_holder (place : place? c.tree kind x = some (.locals, container)) :
    ∃ holder, (c.symbols.names .locals container).find?
      (Text.lowercase (c.tree.nameAt identifier)) = some holder := by
  obtain ⟨b, run, same⟩ := h.bound.exists_binding
  obtain ⟨id, symbol, represents⟩ := a.exists_symbol h
  rw [← same]
  obtain ⟨x', ⟨symbol', hs', hd'⟩, held⟩ := (ofTree_accounted run).declared
    (same ▸ SymbolTable.owns_of_get? represents.known)
  cases represents.known.symm.trans (same ▸ hs')
  cases represents.declared.symm.trans hd'
  obtain ⟨holder, found, -⟩ := held a.declared (a.filled h) place
  exact ⟨holder, found⟩

/-- A container that keeps names of the kind of a declaration keeps something that is called like
it, unless the declaration is eclipsed. -/
theorem kept_or_eclipsed {above : Form} {of : MemberKind}
    (innermost : c.tree.Innermost (keeps .locals) x container)
    (hc : c.tree.formAt container = some above) (keptKind : above.keptKind? = some of)
    (same : kind.memberKind? = some of) (allowed : kinds.has of) :
    (∃ holder, holder ∈ (c.kept kinds container).filter (c.isCalled (c.tree.nameAt identifier))) ∨
      c.Eclipsed x kind identifier := by
  have place := a.place?_of_innermost h (tableOf_of_keptKind keptKind same) innermost
  obtain ⟨holder, found⟩ := a.exists_holder h place
  have held := Registry.mem_values_of_find? found
  obtain ⟨other, known, -⟩ := h.declares.symbols.entries found
  cases called : Text.sameFolded (c.tree.nameAt identifier) other.name with
  | false => exact .inr ⟨container, holder, other, place, found, known, called⟩
  | true =>
    have inside := h.grammatical.within_of_around h.grown a.script a.within
      (innermost.within h.grown)
    obtain ⟨y, title, -, notScript', announces, innermost'⟩ :=
      h.announces_of_kept a.script inside known held
    have ofHolder : other.kind.memberKind? = some of := memberKind_of_innermost h.grammatical
      h.wellFormed a.script announces.within announces.declared notScript' announces.genuine
      innermost' hc keptKind
    refine .inl ⟨holder, List.mem_filter.2 ⟨List.mem_filter.2 ⟨held, ?_⟩, ?_⟩⟩
    · rw [known, Option.any_some, ofHolder]
      exact allowed
    · rw [isCalled, known]
      exact called

omit h in
/-- What is declared is of a kind that a script can have members of, unless it is a parameter. -/
theorem exists_memberKind (notScript : kind ≠ .script) (notParameter : kind ≠ .parameter) :
    ∃ of : MemberKind, kind.memberKind? = some of ∧ kind = of.symbolKind := by
  have declared := a.declared
  cases kind with
  | script | parameter => contradiction
  | importLine => exact absurd rfl a.genuine
  | intrinsic =>
    unfold Tree.declaration? at declared
    grind
  | _ => exact ⟨_, rfl, rfl⟩

/-- A member of the script is shown. -/
theorem exists_shown (notScript : kind ≠ .script) (notGroup : kind ≠ .group)
    (notState : kind ≠ .state) (member : MemberOf c.tree root x) (notParameter : kind ≠ .parameter)
    (surrounds : c.Surrounds identifier ((limitOf kind).getD MemberKind.anywhere) bodies shown) :
    ∃ id ∈ shown, c.isCalled (c.tree.nameAt identifier) id := by
  obtain ⟨header, imports, definitions, hroot, hm⟩ := member
  obtain ⟨id, symbol, known, declared, rfl, name⟩ := a.exists_symbol h
  obtain ⟨script, above, hs, -, hd, encloses⟩ := a.exists_script h
  have displays : c.Displays script ((limitOf symbol.kind).getD MemberKind.anywhere) shown := by
    rcases surrounds.script with ⟨other, around, displays⟩ | ⟨none, -⟩
    · rwa [(encloses other).1 around] at displays
    · exact absurd ((encloses script).2 rfl) (none script)
  have listed := h.declares.mem_members hs hd hroot hm ⟨symbol, known, declared⟩
  obtain ⟨of, same, back⟩ := a.exists_memberKind notScript notParameter
  refine ⟨id, displays.mem_of_member hs listed known back (has_limitOf notGroup notState same), ?_⟩
  rw [isCalled, known, Option.any_some, name]
  exact Text.sameFolded_refl _

/-- Something around the identifier of a declaration is called like it, unless the declaration is
eclipsed or a script. -/
theorem called_or_eclipsed (notScript : kind ≠ .script) (notGroup : kind ≠ .group)
    (notState : kind ≠ .state)
    (surrounds : c.Surrounds identifier ((limitOf kind).getD MemberKind.anywhere) bodies shown) :
    c.called ((limitOf kind).getD MemberKind.anywhere) (c.tree.nameAt identifier)
      bodies shown ≠ [] ∨
      c.Eclipsed x kind identifier := by
  rcases member_or_kept h.grammatical h.wellFormed a.script a.within a.declared notScript
    a.genuine with ⟨member, notParameter, -⟩ |
      ⟨container, above, of, innermost, hc, keptKind, same⟩
  · obtain ⟨id, inShown, called⟩ :=
      a.exists_shown h notScript notGroup notState member notParameter surrounds
    exact .inl (List.ne_nil_of_mem (List.mem_append_right _ (List.mem_filter.2 ⟨inShown, called⟩)))
  · refine (a.kept_or_eclipsed h innermost hc keptKind same
      (has_limitOf notGroup notState same)).imp_left ?_
    rintro ⟨holder, kept⟩
    have inside : c.tree.Within identifier container :=
      ((a.titled h).within h.wellFormed).trans h.grown (innermost.within h.grown)
    have around : container ∈ bodies :=
      (surrounds.nested.mem_iff container).2 ⟨inside, innermost.isWanted⟩
    exact List.ne_nil_of_mem (List.mem_append_left _ (List.mem_flatMap.2 ⟨container, around, kept⟩))

/-! ## Scripts -/

/-- A script is registered under its name. -/
theorem registered (isScript : kind = .script) :
    ∃ holder, c.scripts.find? (c.tree.nameAt identifier) = some holder := by
  obtain rfl : x = root := by
    obtain ⟨n, hn⟩ := Tree.node?_of_declaration? a.declared
    have script := Tree.isScript_of_declaration? hn (isScript ▸ a.declared)
    exact h.grammatical.eq_of_script h.grown a.script a.within
      ((isWanted_of_formAt (Tree.formAt_eq hn) _).trans script) (.refl (Tree.has_of_node? hn))
  obtain ⟨b, run, same⟩ := h.bound.exists_binding
  rw [h.bound.find?_eq, ← same]
  obtain ⟨answers, all⟩ := (treeBound_ofTree run).scripts
  obtain ⟨n, hn, script⟩ := (Option.any_eq_true _ _).1 a.script
  obtain ⟨answer, -, bound⟩ := exists_right_of_mem all (h.grown.mem_roots.2 ⟨n, hn, script⟩)
  have listed := mem_scriptNodes h.grammatical h.wellFormed h.named a.script a.within a.declared
    a.genuine
  cases answer with
  | none =>
    rw [bound.bare rfl] at listed
    cases listed
  | some id => exact bound.registered identifier rfl (isScript ▸ a.declared) (a.isNamed h)

end Announces

end Codebase

namespace Query

open Session

variable {c : Codebase} {s : Session} {name : String} {id : SymbolId}

/-- The name of a script leads to a type, if only to an intrinsic one. -/
theorem runs_resolveType_script (firm : c.Firm) (settled : s.Settled c)
    (found : c.scripts.find? name = some id) :
    Runs (settling c) s (resolveType c name []) fun type _ => type ≠ none := by
  change Runs _ _ (resolveFullName c name) _
  unfold resolveFullName
  cases intrinsic : TypeTable.intrinsic? name with
  | some type => exact .pure settled (by simp)
  | none =>
    obtain ⟨symbol, hs, kind, -⟩ := firm.scripts found
    rw [found]
    refine (runs_scriptType firm settled hs kind).imp ?_
    rintro _ t - - ⟨type, rfl, -⟩
    simp

end Query

namespace Codebase.Announces

open Binding Session

variable {c : Codebase} {root x identifier : NodeId} {kind : SymbolKind} {s : Session}
  (a : c.Announces root x kind identifier) (h : c.Regular)

include a h

theorem runs_symbolsFor {post : Search → Session → Prop}
    (found : ∀ k : Inference, Runs (settling c) s
      (k.matching c identifier (c.tree.nameAt identifier) .everything) fun ids t =>
        post ⟨none, ids⟩ t) :
    Runs (settling c) s (Query.symbolsFor c identifier) post := by
  obtain ⟨depth, hdepth⟩ := c.inference_eq
  rw [Query.symbolsFor, hdepth]
  change Runs _ _ ((Inference.atDepth c depth).findSymbols c identifier) _
  rw [Inference.findSymbols_unbased (nameOf_identifier (a.titled h).named) (a.unbased h)]
  exact .bind (found _) fun ids t _ settled holds => .pure settled holds

/-- What the name of a declaration leads to, if it does not stand for the script or its parent. -/
theorem runs_answers (settled : s.Settled c) (notGroup : kind ≠ .group) (notState : kind ≠ .state)
    (notSelf : Text.sameFolded (c.tree.nameAt identifier) "self" = false)
    (notParent : Text.sameFolded (c.tree.nameAt identifier) "parent" = false) :
    Runs (settling c) s (Query.symbolsFor c identifier) fun search t => ∃ bodies shown,
      c.Surrounds identifier ((limitOf kind).getD MemberKind.anywhere) bodies shown ∧
        t.Answers c (c.tree.nameAt identifier) (c.called ((limitOf kind).getD MemberKind.anywhere)
          (c.tree.nameAt identifier) bodies shown) search.symbols := by
  have titled := a.titled h
  refine a.runs_symbolsFor h fun k => ?_
  exact Inference.runs_answers h.firm h.grown h.top settled (Tree.has_of_formAt titled.named)
    (a.unbased h) (titled.memberKindsAt h.grammatical h.wellFormed h.limited notGroup notState)
    notSelf notParent

/-- A name that stands for the script around it leads to the script. -/
theorem runs_self (settled : s.Settled c)
    (self : Text.sameFolded (c.tree.nameAt identifier) "self") :
    Runs (settling c) s (Query.symbolsFor c identifier) fun search _ => ∃ script above,
      c.symbols.get? script = some above ∧ above.kind = .script ∧ search.symbols = [script] := by
  obtain ⟨script, above, hs, kind, -, encloses⟩ := a.exists_script h
  obtain ⟨root', inside, isScript, known⟩ := (encloses script).2 rfl
  have around : Query.scriptAround c identifier s = .ok (some script, s) := by
    refine (bind_ok
      (liftM_ok (h.grammatical.scriptOf_of_within h.grown isScript inside) s)).trans ?_
    rw [Option.bind_some, known]
    rfl
  refine a.runs_symbolsFor h fun k => .known around ?_
  rw [if_pos self]
  exact .pure settled ⟨script, above, hs, kind, rfl⟩

/-- The name of a declaration, looked up where it is declared, leads to something unless the
declaration is eclipsed. -/
theorem runs_found (settled : s.Settled c) (notGroup : kind ≠ .group) (notState : kind ≠ .state)
    (notParent : Text.sameFolded (c.tree.nameAt identifier) "parent" = false) :
    Runs (settling c) s (Query.symbolsFor c identifier) fun search _ =>
      search.symbols ≠ [] ∨ c.Eclipsed x kind identifier := by
  cases notSelf : Text.sameFolded (c.tree.nameAt identifier) "self" with
  | true =>
    refine (a.runs_self h settled notSelf).imp ?_
    rintro search t - - ⟨script, -, -, -, found⟩
    exact .inl (by simp [found])
  | false =>
    refine (a.runs_answers h settled notGroup notState notSelf notParent).imp ?_
    rintro search t - settled' ⟨bodies, shown, surrounds, answers⟩
    by_cases isScript : kind = .script
    · left
      rcases answers with ⟨filled, same⟩ | ⟨-, ⟨type, info, -, -, -, one⟩ | ⟨none, -⟩⟩
      · exact same ▸ filled
      · simp [one]
      · obtain ⟨holder, registered⟩ := a.registered h isScript
        obtain ⟨-, -, some⟩ := (Query.runs_resolveType_script h.firm settled' registered).of_ok none
        exact absurd rfl some
    · refine (a.called_or_eclipsed h isScript notGroup notState surrounds).imp_left fun filled => ?_
      rcases answers with ⟨-, same⟩ | ⟨empty, -⟩
      · exact same ▸ filled
      · exact absurd empty filled

end Codebase.Announces

end PapyrusAnalysis
