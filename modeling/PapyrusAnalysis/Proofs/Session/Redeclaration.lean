import PapyrusAnalysis.Proofs.Binding.Account
import PapyrusAnalysis.Proofs.Session.Membership
import PapyrusAnalysis.Proofs.Session.Termination
import PapyrusAnalysis.Proofs.Text.Folding

/-!
# Names that are refused and names that are found

A container keeps names by their lower-case forms, of all letters, while a name is looked for up to
the case of its ASCII letters. So a variable is refused if another one has the same lower-case form,
but its name leads to that one only if they agree up to ASCII. Whatever is found is also refused,
and for names in ASCII it is the same.

## Main definitions

* `Codebase.DeclaresIn`: a variable is declared in a container.
-/

namespace PapyrusAnalysis

namespace Codebase

variable {c : Codebase} {container node : NodeId} {id : SymbolId} {name : String}

/-- A variable or parameter with a name is declared at a node, and a container keeps its name. -/
structure DeclaresIn (c : Codebase) (container : NodeId) (id : SymbolId) (node : NodeId)
    (name : String) : Prop where
  declared : Binding.DeclaredAt c.symbols id node
  called : ∃ kind identifier, c.tree.declaration? node = some (kind, identifier) ∧
    kind.memberKind? = some .var ∧ c.tree.nameAt identifier = name
  named : name.isEmpty = false
  kept : Binding.keeper? c.tree .locals node = .ok (some container)

/-- Whether a variable is declared in a container as `DeclaresIn` says. -/
def declaresIn (c : Codebase) (container : NodeId) (id : SymbolId) (node : NodeId)
    (name : String) : Bool :=
  (c.symbols.get? id).any (·.declaration = some node) &&
    (c.tree.declaration? node).any (fun d =>
      d.1.memberKind? = some .var && c.tree.nameAt d.2 = name) &&
    !name.isEmpty && decide (Binding.keeper? c.tree .locals node = .ok (some container))

theorem DeclaresIn.of_test (h : c.declaresIn container id node name) :
    c.DeclaresIn container id node name := by
  simp only [declaresIn, Bool.and_eq_true, Option.any_eq_true, decide_eq_true_eq,
    Bool.not_eq_true'] at h
  obtain ⟨⟨⟨declared, ⟨kind, identifier⟩, hd, isVar, hname⟩, named⟩, kept⟩ := h
  exact ⟨declared, ⟨kind, identifier, hd, isVar, hname⟩, named, kept⟩

/-- The symbol of a variable has its name. -/
theorem DeclaresIn.symbol (h : c.DeclaresIn container id node name)
    (sound : Binding.Sound c.tree c.symbols) : ∃ symbol, c.symbols.get? id = some symbol ∧
      symbol.name = name ∧ symbol.kind.memberKind? = some .var := by
  obtain ⟨symbol, hs, hnode⟩ := h.declared
  obtain ⟨kind, identifier, hd, isVar, rfl⟩ := h.called
  obtain ⟨node', identifier', hnode', hd', hname⟩ := (sound.fits hs).declared
  cases hnode.symm.trans hnode'
  cases hd.symm.trans hd'
  exact ⟨symbol, hs, by simp [hname, Binding.title, h.named], isVar⟩

theorem DeclaresIn.place (h : c.DeclaresIn container id node name) : ∃ kind identifier,
    c.tree.declaration? node = some (kind, identifier) ∧ c.tree.nameAt identifier = name ∧
      Binding.place? c.tree kind node = some (.locals, container) := by
  obtain ⟨kind, identifier, hd, isVar, hname⟩ := h.called
  have table : Binding.tableOf kind = some .locals := by
    cases kind <;> first | rfl | cases isVar
  exact ⟨kind, identifier, hd, hname, Binding.place?_of_keeper table h.kept⟩

variable {b : Binding}

/-- The name of a variable is in its container. -/
theorem DeclaresIn.held (h : c.DeclaresIn container id node name)
    (accounted : Binding.Accounted c.tree b) (same : b.symbols = c.symbols) :
    ∃ holder, (c.symbols.names .locals container).find? (Text.lowercase name) = some holder := by
  obtain ⟨kind, identifier, hd, rfl, place⟩ := h.place
  obtain ⟨symbol, hs, hnode⟩ := h.declared
  rw [← same] at hs ⊢
  obtain ⟨node', ⟨symbol', hs', hnode'⟩, held⟩ := accounted.declared (SymbolTable.owns_of_get? hs)
  cases hs.symm.trans hs'
  cases hnode.symm.trans hnode'
  obtain ⟨holder, found, -⟩ := held hd h.named place
  exact ⟨holder, found⟩

theorem DeclaresIn.refused_iff (h : c.DeclaresIn container id node name)
    (accounted : Binding.Accounted c.tree b) (same : b.symbols = c.symbols) :
    Binding.Refused c.tree b.symbols id name ↔
      (c.symbols.names .locals container).find? (Text.lowercase name) ≠ some id := by
  obtain ⟨kind, identifier, hd, rfl, place⟩ := h.place
  rw [← same]
  exact accounted.refused_iff (same ▸ h.declared) hd h.named place

end Codebase

/-! ## The innermost container -/

namespace Query

open Session

variable {c : Codebase} {s t : Session} {node container : NodeId} {outer : List NodeId}
  {kinds : FlagSet MemberKind} {ids : List SymbolId} {id : SymbolId} {symbol : Symbol}
  {name : String}

/-- A container that is no script offers the names that it keeps. -/
theorem containerSymbols_eq (plain : c.tree.isWanted Form.isScript container = false)
    (kinds : FlagSet MemberKind) (s : Session) :
    containerSymbols c kinds .everything container s =
      .ok ((s.select c (c.symbols.names .locals container).values
        (isVisibleLocal kinds [])).map (·.1), s) := by
  have part : scriptPart c container kinds .everything = pure [] := by
    rw [scriptPart, if_pos]
    simpa [Tree.isWanted] using plain
  unfold containerSymbols
  rw [part]
  rfl

/-- What the innermost container offers comes first. -/
theorem localSymbols_innermost (plain : c.tree.isWanted Form.isScript container = false)
    (around : c.tree.containersAround node = .ok (container :: outer))
    (run : localSymbols c node kinds .everything s = .ok (ids, t)) :
    ∃ rest, ids = (s.select c (c.symbols.names .locals container).values
      (isVisibleLocal kinds [])).map (·.1) ++ rest := by
  obtain ⟨containers, s₁, lifted, run₁⟩ := bind_eq_ok run
  obtain ⟨found, rfl⟩ := liftM_eq_ok lifted
  cases around.symm.trans found
  obtain ⟨parts, s₂, mapped, last⟩ := bind_eq_ok run₁
  rw [List.mapM_cons, bind_ok (containerSymbols_eq plain kinds _)] at mapped
  obtain ⟨rest, s₃, -, done⟩ := bind_eq_ok mapped
  cases done
  cases last
  exact ⟨rest.flatten, rfl⟩

theorem symbol?_eq_of_get? (hs : c.symbols.get? id = some symbol) (s : Session) :
    s.symbol? c id = some symbol :=
  (symbol?_own s (SymbolTable.owns_of_get? hs)).trans hs

/-- The first symbol with a name is the variable that the innermost container keeps under it. -/
theorem head?_named (filed : Binding.Filed c.symbols) (hs : c.symbols.get? id = some symbol)
    (isVar : symbol.kind.memberKind? = some .var) (allowed : kinds.has .var)
    (held : (c.symbols.names .locals container).find? (Text.lowercase symbol.name) = some id)
    (called : Text.sameFolded name symbol.name) (rest : List SymbolId) (s t : Session) :
    ((t.select c ((s.select c (c.symbols.names .locals container).values
      (isVisibleLocal kinds [])).map (·.1) ++ rest)
        (Text.sameFolded name ·.name)).map (·.1)).head? = some id := by
  generalize hown : (s.select c (c.symbols.names .locals container).values
    (isVisibleLocal kinds [])).map (·.1) = own
  have mem_own {other : SymbolId} : other ∈ own ↔
      ∃ entry ∈ s.select c (c.symbols.names .locals container).values (isVisibleLocal kinds []),
        entry.1 = other := by rw [← hown, List.mem_map]
  -- Two names that agree up to ASCII have one lower-case form, so they are kept as one.
  have only : ∀ entry ∈ t.select c own (Text.sameFolded name ·.name), entry.1 = id := by
    intro entry hentry
    obtain ⟨inside, known, alike⟩ := mem_select.1 hentry
    obtain ⟨entry', hentry', same⟩ := mem_own.1 inside
    have kept := (mem_select.1 hentry').1
    rw [same] at kept
    obtain ⟨symbol', hs', found⟩ := filed kept
    cases (symbol?_eq_of_get? hs' t).symm.trans known
    rw [← Text.lowercase_eq_of_sameFolded alike, Text.lowercase_eq_of_sameFolded called,
      held] at found
    exact (Option.some.inj found).symm
  have among : (id, symbol) ∈ t.select c own (Text.sameFolded name ·.name) := by
    refine mem_select.2 ⟨mem_own.2 ⟨(id, symbol), mem_select.2 ⟨?_, ?_, ?_⟩, rfl⟩, ?_, called⟩
    · exact Registry.mem_values_of_find? held
    · exact symbol?_eq_of_get? hs s
    · simp [isVisibleLocal, isVar, allowed]
    · exact symbol?_eq_of_get? hs t
  rw [Session.select, List.filterMap_append, ← Session.select]
  cases hfound : t.select c own (Text.sameFolded name ·.name) with
  | nil =>
    rw [hfound] at among
    cases among
  | cons entry more =>
    rw [hfound] at only
    simp [only entry List.mem_cons_self]

end Query

/-! ## What a name leads to -/

namespace Inference

open Session

variable {c : Codebase} {s u : Session} {k : Inference} {node : NodeId} {kinds : FlagSet MemberKind}
  {ids : List SymbolId} {name : String} {id : SymbolId}

/-- A name that does not stand for a script leads to the symbols with the name that can be named, or
if there are none to a type. -/
theorem matching_cases (unbased : c.tree.baseFor node = .ok none)
    (hkinds : c.tree.memberKindsAt node = .ok kinds)
    (notSelf : Text.sameFolded name "self" = false)
    (notParent : Text.sameFolded name "parent" = false)
    (run : k.matching c node name .everything s = .ok (ids, u)) :
    ∃ s' t offered, Query.localSymbols c node kinds .everything s' = .ok (offered, t) ∧
      (ids = (t.select c offered (Text.sameFolded name ·.name)).map (·.1) ∨
        (t.select c offered (Text.sameFolded name ·.name)).map (·.1) = [] ∧
          typeSymbol c name t = .ok (ids, u)) := by
  obtain ⟨script, s₁, -, run₁⟩ := bind_eq_ok run
  simp only [notSelf, notParent, Bool.false_eq_true, if_false] at run₁
  obtain ⟨kinds', s₂, lifted, run₂⟩ := bind_eq_ok run₁
  obtain ⟨hkinds', rfl⟩ := liftM_eq_ok lifted
  cases hkinds.symm.trans hkinds'
  obtain ⟨search, t, offers, run₃⟩ := bind_eq_ok run₂
  obtain ⟨base, s₃, lifted', run₄⟩ := bind_eq_ok offers
  obtain ⟨hbase, rfl⟩ := liftM_eq_ok lifted'
  cases unbased.symm.trans hbase
  obtain ⟨offered, t', listed, done⟩ := bind_eq_ok run₄
  cases done
  rw [bind_ok (Query.withName_eq c name offered t)] at run₃
  refine ⟨_, t, offered, listed, ?_⟩
  split at run₃
  · cases run₃
    exact .inl rfl
  · rename_i none
    exact .inr ⟨by simpa using none, run₃⟩

/-- The symbol of a type is no variable. -/
theorem not_var_of_type {type : TypeId} {info : TypeInfo} {symbol : Symbol} (sound : u.Sound c)
    (hi : u.types.get? type = some info) (hs : c.symbols.get? info.symbol = some symbol) :
    symbol.kind.memberKind? ≠ some .var := by
  have fits := sound.infos hi
  have owned := SymbolTable.owns_of_get? hs
  have stands {kind : SymbolKind} (other : kind.memberKind? ≠ some .var)
      (h : info.Stands c kind) : symbol.kind.memberKind? ≠ some .var := by
    obtain ⟨symbol', hs', rfl, -⟩ := h
    cases hs.symm.trans hs'
    exact other
  cases hf : info.form with
  | intrinsic kind => exact absurd owned (fits.foreign (.inl (by simp [TypeInfo.isIntrinsic, hf])))
  | script structs => exact stands (by decide) (fits.script (by simp [TypeInfo.isScript, hf]))
  | struct script => exact stands (by decide) (fits.struct (by simp [TypeInfo.isStruct, hf]))
  | array element => exact absurd owned (fits.foreign (.inr (by simp [TypeInfo.isArray, hf])))

theorem not_mem_typeSymbol {symbol : Symbol} (sound : u.Sound c)
    (hs : c.symbols.get? id = some symbol) (isVar : symbol.kind.memberKind? = some .var)
    (run : typeSymbol c name s = .ok (ids, u)) : id ∉ ids := by
  intro hid
  obtain ⟨found, t, -, run₁⟩ := bind_eq_ok run
  cases found with
  | none =>
    cases run₁
    cases hid
  | some type =>
    obtain ⟨info, t', known, done⟩ := bind_eq_ok run₁
    cases done
    obtain ⟨_, t'', got, known⟩ := bind_eq_ok known
    cases got
    obtain ⟨hget, rfl⟩ := liftM_eq_ok known
    cases hi : u.types.get? type with
    | none =>
      rw [TypeTable.get, hi] at hget
      cases hget
    | some info' =>
      cases (TypeTable.get_eq_ok hi).symm.trans hget
      split at hid
      · cases hid
      · cases List.mem_singleton.1 hid
        exact not_var_of_type sound hi hs isVar

end Inference

/-! ## One name, two notions of case -/

theorem Tree.has_of_nameOf {t : Tree} {node : NodeId} {name : Option String}
    (h : t.nameOf node = .ok name) : t.Has node := by
  refine Decidable.byContradiction fun foreign => ?_
  rw [Tree.nameOf, Tree.nameWithin, Tree.form_eq_error foreign] at h
  cases h

namespace Query

open Codebase Session

variable {c : Codebase} {b : Binding} {s u : Session} {search : Search}
  {container node node' identifier : NodeId} {outer : List NodeId} {id id' : SymbolId}
  {name name' : String} {kinds : FlagSet MemberKind}

/-- A variable that a container keeps is the first symbol for an identifier in it, or one of them,
if and only if the names agree up to the case of ASCII letters. -/
theorem found_iff (hc : c.Sound) (filed : Binding.Filed c.symbols)
    (first : c.DeclaresIn container id node name)
    (holds : (c.symbols.names .locals container).find? (Text.lowercase name) = some id)
    (spelled : c.tree.nameOf identifier = .ok (some name'))
    (notSelf : Text.sameFolded name' "self" = false)
    (notParent : Text.sameFolded name' "parent" = false)
    (unbased : c.tree.baseFor identifier = .ok none)
    (inside : c.tree.containersAround identifier = .ok (container :: outer))
    (scope : c.tree.memberKindsAt identifier = .ok kinds) (allowed : kinds.has .var)
    (sound : u.Sound c) (run : symbolsFor c identifier s = .ok (search, u)) :
    (search.symbols.head? = some id ↔ Text.sameFolded name' name) ∧
      (id ∈ search.symbols ↔ Text.sameFolded name' name) := by
  obtain ⟨symbol, hs, rfl, isVar⟩ := first.symbol hc.symbols
  have plain := hc.symbols.not_script_of_kept (Registry.mem_values_of_find? holds)
  have found := Inference.findSymbols_of_symbolsFor run
  rw [Inference.findSymbols_unbased spelled unbased] at found
  obtain ⟨ids, t, matched, done⟩ := bind_eq_ok found
  cases done
  obtain ⟨s', t, offered, offers, answer⟩ :=
    Inference.matching_cases unbased scope notSelf notParent matched
  obtain ⟨rest, rfl⟩ := localSymbols_innermost plain inside offers
  have first? (called : Text.sameFolded name' symbol.name) : ids.head? = some id := by
    have head := head?_named filed hs isVar allowed holds called rest s' t
    rcases answer with rfl | ⟨none, -⟩
    · exact head
    · rw [none] at head
      cases head
  have called (hid : id ∈ ids) : Text.sameFolded name' symbol.name := by
    rcases answer with rfl | ⟨-, named⟩
    · obtain ⟨entry, hentry, rfl⟩ := List.mem_map.1 hid
      obtain ⟨-, known, called⟩ := mem_select.1 hentry
      cases (symbol?_eq_of_get? hs t).symm.trans known
      exact called
    · exact absurd hid (Inference.not_mem_typeSymbol sound hs isVar named)
  exact ⟨⟨fun head => called (List.mem_of_head? head), first?⟩,
    ⟨called, fun h => List.mem_of_head? (first? h)⟩⟩

/-- Where a container keeps a variable, another one that is declared in it is refused if and only if
both have the same lower-case form, and an identifier with its name leads to the first one if and
only if the names agree up to the case of ASCII letters. So what is found is refused, and for names
in ASCII what is refused is found. -/
theorem refused_and_found (bound : c.Bound) (grown : c.tree.Grown)
    (descending : c.tree.Descending) (shielded : c.tree.Shielded)
    (run : Binding.ofTree c.tree = .ok b) (first : c.DeclaresIn container id node name)
    (holds : (c.symbols.names .locals container).find? (Text.lowercase name) = some id)
    (second : c.DeclaresIn container id' node' name') (other : id' ≠ id)
    (alone : ∀ holder, (c.symbols.names .locals container).find? (Text.lowercase name') =
      some holder → holder = id ∨ holder = id')
    (spelled : c.tree.nameOf identifier = .ok (some name'))
    (notSelf : Text.sameFolded name' "self" = false)
    (notParent : Text.sameFolded name' "parent" = false)
    (unbased : c.tree.baseFor identifier = .ok none)
    (inside : c.tree.containersAround identifier = .ok (container :: outer))
    (scope : c.tree.memberKindsAt identifier = .ok kinds) (allowed : kinds.has .var)
    (arises : s.Arises c) :
    b.report = b.symbols.ids.filterMap (Binding.complaint? c.tree b.symbols) ∧
      (Binding.Refused c.tree b.symbols id' name' ↔ Text.lowercase name' = Text.lowercase name) ∧
      (symbolsFor c identifier).Settles c s ∧
      ∀ search u, symbolsFor c identifier s = .ok (search, u) →
        (search.symbols.head? = some id ↔ Text.sameFolded name' name) ∧
        (id ∈ search.symbols ↔ Text.sameFolded name' name) ∧
        (search.symbols.head? = some id → Binding.Refused c.tree b.symbols id' name') ∧
        ((∀ ch ∈ name.toList, ch.toNat < 128) → (∀ ch ∈ name'.toList, ch.toNat < 128) →
          (Binding.Refused c.tree b.symbols id' name' ↔ search.symbols.head? = some id)) := by
  have hc := bound.sound grown descending shielded
  have accounted := Binding.ofTree_accounted run
  obtain ⟨b', run', same⟩ := bound.exists_binding
  cases run.symm.trans run'
  have filed : Binding.Filed c.symbols := same ▸ accounted.filed
  have refused : Binding.Refused c.tree b.symbols id' name' ↔
      Text.lowercase name' = Text.lowercase name := by
    rw [second.refused_iff accounted same]
    constructor
    · intro unheld
      obtain ⟨holder, found⟩ := second.held accounted same
      rcases alone holder found with rfl | rfl
      · obtain ⟨symbol, hs, rfl, -⟩ := first.symbol hc.symbols
        obtain ⟨symbol', hs', hkey⟩ := hc.symbols.entries found
        cases hs.symm.trans hs'
        exact hkey.symm
      · exact absurd found unheld
    · intro alike held
      rw [alike, holds] at held
      exact other (Option.some.inj held).symm
  have settles : (symbolsFor c identifier).Settles c s :=
    .of_coupled ((Correspondence.strict_lawful hc _).symbolsFor ⟨rfl, arises.sound hc, rfl⟩
      (Tree.has_of_nameOf spelled))
  refine ⟨accounted.report, refused, settles, fun search u answered => ?_⟩
  have later : u.Arises c := arises.ask (.symbolsFor identifier) (Question.discard_ok answered)
  obtain ⟨head, member⟩ := found_iff hc filed first holds spelled notSelf notParent unbased inside
    scope allowed (later.sound hc) answered
  refine ⟨head, member, fun found => ?_, fun ascii ascii' => ?_⟩
  · exact refused.2 (Text.lowercase_eq_of_sameFolded (head.1 found))
  · rw [refused, head, Text.lowercase_eq_iff_sameFolded ascii' ascii]

/-- A function with two variables and a statement that names the second one:

    ScriptName A
    Function F()
      Int a
      Int b
      b
    EndFunction -/
def localForms (a b : String) : List Form :=
  [.identifier "A", .scriptHeader ⟨0⟩ none ∅,
    .identifier "F", .parameterList [], .functionHeader none ⟨2⟩ ⟨3⟩ ∅,
    .identifier "Int", .typeName ⟨5⟩ false, .identifier a, .declaration ⟨6⟩ ⟨7⟩ none,
    .identifier "Int", .typeName ⟨9⟩ false, .identifier b, .declaration ⟨10⟩ ⟨11⟩ none,
    .identifier b, .reference ⟨13⟩, .expressionStatement ⟨14⟩,
    .function ⟨4⟩ [⟨8⟩, ⟨12⟩, ⟨15⟩], .script ⟨1⟩ [] [⟨16⟩]]

/-- Whether both variables are declared in the function and the first one holds the lower-case forms
of both. -/
def holdsBoth (a b : String) (c : Codebase) : Bool :=
  c.declaresIn ⟨16⟩ ⟨2⟩ ⟨8⟩ a && c.declaresIn ⟨16⟩ ⟨3⟩ ⟨12⟩ b &&
    decide ((c.symbols.names .locals ⟨16⟩).find? (Text.lowercase a) = some ⟨2⟩ ∧
      (c.symbols.names .locals ⟨16⟩).find? (Text.lowercase b) = some ⟨2⟩)

/-- Two names with the same letter outside of ASCII differ in the case of another one. The second is
refused and leads to the first. -/
theorem alike_local_is_refused_and_found : ∃ (c : Codebase) (b : Binding) (s : Session),
    c.tree = .ofForms (localForms "Éa" "ÉA") ∧ c.Bound ∧ c.tree.Grown ∧ c.tree.Descending ∧
    c.tree.Shielded ∧ Binding.ofTree c.tree = .ok b ∧
    c.DeclaresIn ⟨16⟩ ⟨2⟩ ⟨8⟩ "Éa" ∧
    (c.symbols.names .locals ⟨16⟩).find? (Text.lowercase "Éa") = some ⟨2⟩ ∧
    c.DeclaresIn ⟨16⟩ ⟨3⟩ ⟨12⟩ "ÉA" ∧
    (∀ holder, (c.symbols.names .locals ⟨16⟩).find? (Text.lowercase "ÉA") = some holder →
      holder = ⟨2⟩ ∨ holder = ⟨3⟩) ∧
    c.tree.nameOf ⟨13⟩ = .ok (some "ÉA") ∧ c.tree.baseFor ⟨13⟩ = .ok none ∧
    c.tree.containersAround ⟨13⟩ = .ok [⟨16⟩, ⟨17⟩] ∧
    c.tree.memberKindsAt ⟨13⟩ = .ok MemberKind.anywhere ∧ s.Arises c ∧
    Binding.Refused c.tree b.symbols ⟨3⟩ "ÉA" ∧
    ∃ search u, symbolsFor c ⟨13⟩ s = .ok (search, u) ∧ search.symbols.head? = some ⟨2⟩ := by
  obtain ⟨c, s, same, bound, wf, -, -, started, fits⟩ := exists_started (localForms "Éa" "ÉA")
    (fun c s => holdsBoth "Éa" "ÉA" c && (symbolsFor c ⟨13⟩ s).toOption.any fun _ => true)
    (by decide +kernel) (by decide +kernel) (by decide +kernel) (by decide +kernel)
  simp only [holdsBoth, Bool.and_eq_true, decide_eq_true_eq] at fits
  obtain ⟨⟨⟨declares, declares'⟩, holds, taken⟩, answered⟩ := fits
  have first := Codebase.DeclaresIn.of_test declares
  have second := Codebase.DeclaresIn.of_test declares'
  have alone : ∀ holder, (c.symbols.names .locals ⟨16⟩).find? (Text.lowercase "ÉA") = some holder →
      holder = ⟨2⟩ ∨ holder = ⟨3⟩ :=
    fun holder found => .inl (Option.some.inj (found.symm.trans taken))
  have shielded : c.tree.Shielded := same ▸ by decide +kernel
  have spelled : c.tree.nameOf ⟨13⟩ = .ok (some "ÉA") := same ▸ by decide +kernel
  have unbased : c.tree.baseFor ⟨13⟩ = .ok none := same ▸ by decide +kernel
  have inside : c.tree.containersAround ⟨13⟩ = .ok [⟨16⟩, ⟨17⟩] := same ▸ by decide +kernel
  have scope : c.tree.memberKindsAt ⟨13⟩ = .ok MemberKind.anywhere := same ▸ by decide +kernel
  have arises : s.Arises c := ⟨s, started, .refl⟩
  obtain ⟨b, run, -⟩ := bound.exists_binding
  obtain ⟨-, refused, -, found⟩ := refused_and_found bound wf.grown wf.descending shielded run first
    holds second (by decide) alone spelled (by decide) (by decide) unbased inside scope (by decide)
    arises
  refine ⟨c, b, s, same, bound, wf.grown, wf.descending, shielded, run, first, holds, second, alone,
    spelled, unbased, inside, scope, arises, refused.2 (by decide +kernel), ?_⟩
  obtain ⟨⟨search, u⟩, answer, -⟩ := exists_ok_of_any answered
  exact ⟨search, u, answer, (found search u answer).1.2 (by decide)⟩

/-- A variable whose name differs from another one in the case of a letter outside of ASCII is
refused, but its name leads to nothing. -/
theorem accented_local_is_refused_and_lost : ∃ (c : Codebase) (s u : Session) (search : Search),
    c.tree = .ofForms (localForms "É" "é") ∧ c.Bound ∧ s.Arises c ∧
    c.DeclaresIn ⟨16⟩ ⟨2⟩ ⟨8⟩ "É" ∧ c.DeclaresIn ⟨16⟩ ⟨3⟩ ⟨12⟩ "é" ∧
    Binding.Refused c.tree c.symbols ⟨3⟩ "é" ∧
    symbolsFor c ⟨13⟩ s = .ok (search, u) ∧ search.symbols = [] := by
  obtain ⟨c, s, same, bound, -, -, -, started, fits⟩ := exists_started (localForms "É" "é")
    (fun c s => holdsBoth "É" "é" c && (Binding.complaint? c.tree c.symbols ⟨3⟩).any (fun d =>
      d.text = "Cannot redeclare " ++ "é" ++ ".") &&
        (symbolsFor c ⟨13⟩ s).toOption.any fun answer => answer.1.symbols = [])
    (by decide +kernel) (by decide +kernel) (by decide +kernel) (by decide +kernel)
  obtain ⟨checks, answered⟩ := Bool.and_eq_true_iff.1 fits
  obtain ⟨holds, complains⟩ := Bool.and_eq_true_iff.1 checks
  simp only [holdsBoth, Bool.and_eq_true] at holds
  obtain ⟨⟨declares, declares'⟩, -⟩ := holds
  obtain ⟨d, complaint, text⟩ := (Option.any_eq_true _ _).1 complains
  obtain ⟨⟨search, u⟩, answer, nothing⟩ := exists_ok_of_any answered
  exact ⟨c, s, u, search, same, bound, ⟨s, started, .refl⟩, .of_test declares,
    .of_test declares', ⟨d, complaint, of_decide_eq_true text⟩, answer, of_decide_eq_true nothing⟩

end Query

end PapyrusAnalysis
