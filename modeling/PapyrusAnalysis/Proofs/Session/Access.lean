import PapyrusAnalysis.Proofs.Session.Membership

/-!
# Static and instance access

A member is accessed through a script as such or through an instance of it. What is listed behind
the point depends on this: the global functions of the script in the one case, and all others in the
other case. What a name behind the point leads to does not depend on it. There the functions of both
sorts are found, and so are the global functions of the scripts that the script imports.

## Main definitions

* `Query.ListsFunctions`: some symbols hold the functions of one sort of a script.
* `Query.FindsFunctions`: some symbols hold the functions with a name of both sorts.
-/

namespace PapyrusAnalysis

/-! ## Filters for functions -/

namespace Filter

/-- What is admitted behind a point: of a script as such what needs no instance, and of an instance
what belongs to it. -/
def behindPoint (static : Bool) : Filter :=
  if static then everything.erase .ofInstance else everything.erase .global

theorem admits_function_behindPoint (static : Bool) (symbol : Symbol) :
    (behindPoint static).admitsFunction symbol = (symbol.isGlobal == static) := by
  unfold admitsFunction admitsScope admitsNativity
  cases static <;> cases symbol.isGlobal <;> cases symbol.isNative <;> decide

theorem admits_function_globals (symbol : Symbol) :
    globals.admitsFunction symbol = symbol.isGlobal := by
  unfold admitsFunction admitsScope admitsNativity
  cases symbol.isGlobal <;> cases symbol.isNative <;> decide

end Filter

namespace Codebase

variable {c : Codebase} {script above id : SymbolId} {symbol : Symbol} {node : NodeId}
  {kinds : FlagSet MemberKind}

/-- The functions of a script that a filter admits. -/
theorem admits_function_iff (function : symbol.kind = .function) (filter : Filter) :
    c.Admits script kinds filter id symbol ↔
      kinds.has .function ∧ filter.admitsFunction symbol ∧ c.Provides script id symbol := by
  constructor
  · intro admits
    have provides := admits.provides
    obtain ⟨group, among, has, -, wanted⟩ := admits
    simp only [Query.staticGroups, Query.instanceGroups, List.mem_append, List.mem_cons,
      List.not_mem_nil, or_false, List.mem_ite_nil_right] at among
    rcases among with ((rfl | rfl) | ⟨-, rfl⟩) | ⟨-, rfl | rfl | rfl | rfl | rfl⟩
    · exact ⟨has, (Bool.and_eq_true_iff.1 wanted).2, provides⟩
    all_goals simp [function] at wanted
  · rintro ⟨has, admits, provides⟩
    refine ⟨Query.functionGroup filter, Query.functionGroup_mem filter, has, provides, ?_⟩
    simp [Query.functionGroup, function, admits]

/-- The functions that a script shows. -/
theorem shows_function_iff (function : symbol.kind = .function) :
    c.Shows script kinds id symbol ↔ kinds.has .function ∧ (c.Provides script id symbol ∨
      symbol.isGlobal ∧ ∃ other, c.Imports script other ∧ c.Provides other id symbol) := by
  have kept : (importedKinds kinds).has .function = kinds.has .function := by
    have one : ({.function} : FlagSet MemberKind).has .function = true := by decide
    have other : ({.struct} : FlagSet MemberKind).has .function = false := by decide
    simp [importedKinds, one, other]
  simp only [Shows, admits_function_iff function, Filter.admits_function,
    Filter.admits_function_globals, kept]
  grind

/-- At the declaration of a script one can name what it shows. -/
theorem Declares.visible_iff (h : c.Declares) (hs : c.symbols.get? above = some symbol)
    (hd : symbol.declaration = some node) (kind : symbol.kind = .script) {found : Symbol} :
    c.Visible kinds node id found ↔ c.Shows above kinds id found := by
  constructor
  · intro visible
    cases visible with
    | kept around keeps =>
      rcases h.around hs hd (.inl kind) around with ⟨script, -⟩ | ⟨struct, -⟩
      · cases (h.symbols.not_script_of_kept keeps.1).symm.trans script
      · cases kind.symm.trans struct
    | shown encloses shows =>
      cases h.eq_of_encloses hs hd kind encloses
      exact shows
  · intro shows
    obtain ⟨node', identifier, hd', hk, -⟩ := (h.symbols.fits hs).declared
    cases hd.symm.trans hd'
    rw [kind] at hk
    obtain ⟨n, hn⟩ := Tree.node?_of_declaration? hk
    refine .shown ⟨node, .refl (Tree.has_of_node? hn), ?_, ?_⟩ shows
    · rw [Binding.isWanted_of_formAt (Tree.formAt_eq hn)]
      exact Tree.isScript_of_declaration? hn hk
    · exact (h.symbols.symbolOf_iff h.nodup).2 ⟨symbol, hs, hd⟩

end Codebase

namespace Query

open Inference Session

variable {c : Codebase} {s t : Session} {type : TypeId} {info : TypeInfo} {name : String}
  {id : SymbolId} {symbol : Symbol}

/-- No type belongs to a function. -/
theorem not_typeNamed_function (firm : c.Firm) (settled : s.Settled c)
    (hs : c.symbols.get? id = some symbol) (function : symbol.kind = .function) :
    ¬ TypeNamed c s name id := by
  rintro ⟨type, info, -, hi, rfl⟩
  obtain ⟨other, known, -, names⟩ := settled.types hi
  cases ((symbol?_own s (SymbolTable.owns_of_get? hs)).trans hs).symm.trans known
  obtain ⟨node, identifier, hd, -⟩ := (firm.symbols.fits hs).declared
  simpa [Codebase.namesType, function] using names node hd

/-- Some symbols hold those functions of a script that are global, or those that are not. -/
def ListsFunctions (c : Codebase) (script : SymbolId) (static : Bool)
    (limits : FlagSet MemberKind) (ids : List SymbolId) : Prop :=
  ∀ {id symbol}, c.symbols.get? id = some symbol → symbol.kind = .function →
    (id ∈ ids ↔ limits.has .function ∧ c.Provides script id symbol ∧ symbol.isGlobal = static)

/-- Some symbols hold the functions of a script with a name, global or not, and the global functions
with the name that it imports. -/
def FindsFunctions (c : Codebase) (script : SymbolId) (name : String)
    (limits : FlagSet MemberKind) (ids : List SymbolId) : Prop :=
  ∀ {id symbol}, c.symbols.get? id = some symbol → symbol.kind = .function →
    (id ∈ ids ↔ Text.sameFolded name "self" = false ∧ Text.sameFolded name "parent" = false ∧
      Text.sameFolded name symbol.name ∧ limits.has .function ∧ (c.Provides script id symbol ∨
        symbol.isGlobal ∧ ∃ other, c.Imports script other ∧ c.Provides other id symbol))

theorem whole_behindPoint (static : Bool) : WholeFilter (.behindPoint static) := by
  cases static <;> exact ⟨by decide, by decide⟩

/-- What is listed behind a point depends on whether the access is static. -/
theorem available_based {node base : NodeId} {static : Bool} {limits kinds : FlagSet MemberKind}
    {s' : Session} (based : c.tree.baseFor node = .ok (some base))
    (asked : isStaticAccess c node s = .ok (static, s'))
    (typed : typeOf c base s' = .ok (some type, t)) (hi : t.types.get? type = some info)
    (composed : info.isIntrinsic = false) (limited : c.tree.memberKindsAt node = .ok limits) :
    available c node kinds .everything s =
      (do return ⟨some base, ← membersOf c type limits (.behindPoint static)⟩ : Query Search)
        t := by
  refine (bind_ok (liftM_ok based s)).trans ((bind_ok asked).trans ((bind_ok typed).trans
    ((bind_ok (typeInfo_eq hi)).trans ?_)))
  rw [composed]
  exact bind_ok (liftM_ok limited t)

theorem memberKindsAt_of_baseFor {node base : NodeId}
    (based : c.tree.baseFor node = .ok (some base)) :
    ∃ limits, c.tree.memberKindsAt node = .ok limits := by
  obtain ⟨lineage, around, -⟩ := exists_of_bind_eq_ok based
  exact ⟨_, by rw [Tree.memberKindsAt, around]; rfl⟩

/-- The functions that a name leads to from the declaration of a script. -/
theorem reaches_function_iff (declares : c.Declares) (firm : c.Firm) (settled : s.Settled c)
    {script : SymbolId} {above : Symbol} {node : NodeId} {kinds : FlagSet MemberKind}
    (ha : c.symbols.get? script = some above) (hd : above.declaration = some node)
    (kind : above.kind = .script) (hs : c.symbols.get? id = some symbol)
    (function : symbol.kind = .function) :
    s.Reaches c node kinds name id ↔ Text.sameFolded name "self" = false ∧
      Text.sameFolded name "parent" = false ∧ Text.sameFolded name symbol.name ∧
        c.Shows script kinds id symbol := by
  have notScript (h : ∃ found, c.symbols.get? id = some found ∧ found.kind = .script) : False := by
    obtain ⟨found, hf, isScript⟩ := h
    cases hs.symm.trans hf
    cases function.symm.trans isScript
  constructor
  · intro reaches
    cases reaches with
    | self _ around =>
      obtain ⟨found, known, isScript⟩ :=
        scriptAround_eq firm.symbols (declares.unbased ha hd (.inl kind)).1
      exact (notScript (isScript id (eq_of_scriptAround known around))).elim
    | parent _ _ _ _ found =>
      obtain ⟨other, ho, isScript, -⟩ := firm.scripts found
      exact (notScript ⟨other, ho, isScript⟩).elim
    | symbol notSelf notParent visible called =>
      cases hs.symm.trans visible.get?
      exact ⟨notSelf, notParent, called, (declares.visible_iff ha hd kind).1 visible⟩
    | typeName _ _ _ named => exact (not_typeNamed_function firm settled hs function named).elim
  · rintro ⟨notSelf, notParent, called, shows⟩
    exact .symbol notSelf notParent ((declares.visible_iff ha hd kind).2 shows) called

/-- The members of a script that are listed behind a point. -/
theorem listsFunctions_of_membersOf (firm : c.Firm) (settled : t.Settled c) {script : SymbolId}
    (scriptAt : t.ScriptAt script type) {static : Bool} {limits : FlagSet MemberKind}
    {ids : List SymbolId} {u : Session}
    (members : membersOf c type limits (.behindPoint static) t = .ok (ids, u)) :
    ListsFunctions c script static limits ids := by
  obtain ⟨-, -, admitted⟩ :=
    (runs_membersOf firm settled scriptAt limits (whole_behindPoint static)).of_ok members
  intro id symbol hs function
  rw [admitted]
  constructor
  · rintro ⟨symbol', admits⟩
    cases hs.symm.trans admits.provides.get?
    obtain ⟨has, admits, provides⟩ := (Codebase.admits_function_iff function _).1 admits
    rw [Filter.admits_function_behindPoint, beq_iff_eq] at admits
    exact ⟨has, provides, admits⟩
  · rintro ⟨has, provides, sort⟩
    refine ⟨symbol, (Codebase.admits_function_iff function _).2 ⟨has, ?_, provides⟩⟩
    rw [Filter.admits_function_behindPoint, beq_iff_eq]
    exact sort

/-- The members of a script that a name leads to. -/
theorem findsFunctions_of_membersNamed (declares : c.Declares) (firm : c.Firm)
    (settled : t.Settled c) (hi : t.types.get? type = some info) (isScript : info.isScript)
    {above : Symbol} {node : NodeId} {home : FlagSet MemberKind}
    (ha : c.symbols.get? info.symbol = some above) (kind : above.kind = .script)
    (hd : above.declaration = some node) (hhome : c.tree.memberKindsAt node = .ok home)
    {k : Inference} {ids : List SymbolId} {u : Session}
    (members : k.membersNamed c type name t = .ok (ids, u)) :
    FindsFunctions c info.symbol name home ids := by
  obtain ⟨-, settled', finds⟩ := (runs_membersNamed declares firm settled hi name).of_ok members
  have declared : info.isDeclared := by simp [TypeInfo.isDeclared, isScript]
  intro id symbol hs function
  rw [finds, finds_iff_reaches declared ha hd hhome,
    reaches_function_iff declares firm settled' ha hd kind hs function,
    Codebase.shows_function_iff function]

/-- Behind a point after a script, those functions are listed that are global if the access is
static, and those that are not if it is not. The functions that a name leads to are those that have
the name, whether the access is static or not. -/
theorem functions_behind_point (bound : c.Bound) (wf : c.tree.WellFormed)
    (top : c.tree.ScriptsOnTop) (apart : c.ScriptsApart) (arises : s.Arises c)
    {identifier base : NodeId} {static : Bool} {kinds : FlagSet MemberKind} {search offer : Search}
    {s' u v : Session} (based : c.tree.baseFor identifier = .ok (some base))
    (named : c.tree.nameOf identifier = .ok (some name))
    (asked : isStaticAccess c identifier s = .ok (static, s'))
    (typed : typeOf c base s' = .ok (some type, t)) (hi : t.types.get? type = some info)
    (isScript : info.isScript) (found : symbolsFor c identifier s' = .ok (search, u))
    (listed : available c identifier kinds .everything s = .ok (offer, v)) :
    ∃ above node limits home, c.tree.memberKindsAt identifier = .ok limits ∧
      c.symbols.get? info.symbol = some above ∧ above.declaration = some node ∧
      c.tree.memberKindsAt node = .ok home ∧
      ListsFunctions c info.symbol static limits offer.symbols ∧
      FindsFunctions c info.symbol name home search.symbols := by
  have firm := bound.firm apart
  have declares := bound.declares wf top
  have settled' := ((steps_settling firm).asks (.isStaticAccess (.any identifier))
    (arises.settled firm) asked).2
  have settled := ((steps_settling firm).typeOf base settled' typed).2
  obtain ⟨above, ha, kind, -⟩ := (settled.infos hi).script isScript
  obtain ⟨node, -, hd, -⟩ := (firm.symbols.fits ha).declared
  obtain ⟨home, hhome⟩ := Tree.memberKindsAt_eq_ok (declares.unbased ha hd (.inl kind)).1
  obtain ⟨limits, limited⟩ := memberKindsAt_of_baseFor based
  have composed : info.isIntrinsic = false := by
    obtain ⟨structs, hf⟩ := TypeInfo.form_of_script isScript
    simp [TypeInfo.isIntrinsic, hf]
  rw [available_based based asked typed hi composed limited] at listed
  obtain ⟨ids, w, members, last⟩ := bind_eq_ok listed
  cases last
  have members' := (membersNamed_of_symbolsFor based named typed found).2
  exact ⟨above, node, limits, home, limited, ha, hd, hhome,
    listsFunctions_of_membersOf firm settled ⟨info, hi, isScript, rfl⟩ members,
    findsFunctions_of_membersNamed declares firm settled hi isScript ha kind hd hhome members'⟩

/-- A function is called through a script that needs an instance, and one is called through an
instance that needs none:

    ScriptName B
    Function Poke()
    EndFunction
    Function Wait() Global
    EndFunction

    ScriptName A
    Function F(B p)
      B.Poke()
      p.Wait()
    EndFunction -/
def accessForms : List Form :=
  [.identifier "B", .scriptHeader ⟨0⟩ none ∅,
    .identifier "Poke", .parameterList [], .functionHeader none ⟨2⟩ ⟨3⟩ ∅, .function ⟨4⟩ [],
    .identifier "Wait", .parameterList [], .functionHeader none ⟨6⟩ ⟨7⟩ {.global},
    .function ⟨8⟩ [], .script ⟨1⟩ [] [⟨5⟩, ⟨9⟩],
    .identifier "A", .scriptHeader ⟨11⟩ none ∅,
    .identifier "F", .identifier "B", .typeName ⟨14⟩ false, .identifier "p",
    .parameter ⟨15⟩ ⟨16⟩ none false, .parameterList [⟨17⟩], .functionHeader none ⟨13⟩ ⟨18⟩ ∅,
    .identifier "B", .reference ⟨20⟩, .identifier "Poke", .call ⟨22⟩ [],
    .memberAccess ⟨21⟩ ⟨23⟩, .expressionStatement ⟨24⟩,
    .identifier "p", .reference ⟨26⟩, .identifier "Wait", .call ⟨28⟩ [],
    .memberAccess ⟨27⟩ ⟨29⟩, .expressionStatement ⟨30⟩,
    .function ⟨19⟩ [⟨25⟩, ⟨31⟩], .script ⟨12⟩ [] [⟨32⟩]]

/-- Of the functions of the script `B`, the one that is global is listed behind the point, and the
other is found. -/
theorem poke_behind_point : ∃ (c : Codebase) (s s' t u v : Session) (type : TypeId)
    (info : TypeInfo) (search offer : Search), c.tree = .ofForms accessForms ∧ c.Bound ∧
    c.tree.WellFormed ∧ c.tree.ScriptsOnTop ∧ c.ScriptsApart ∧ s.Arises c ∧
    c.tree.baseFor ⟨22⟩ = .ok (some ⟨21⟩) ∧ c.tree.nameOf ⟨22⟩ = .ok (some "Poke") ∧
    isStaticAccess c ⟨22⟩ s = .ok (true, s') ∧ typeOf c ⟨21⟩ s' = .ok (some type, t) ∧
    t.types.get? type = some info ∧ info.isScript ∧ symbolsFor c ⟨22⟩ s' = .ok (search, u) ∧
    available c ⟨22⟩ {.function} .everything s = .ok (offer, v) ∧ search.symbols = [⟨1⟩] ∧
    offer.symbols = [⟨2⟩] ∧ ∃ limits home, c.tree.memberKindsAt ⟨22⟩ = .ok limits ∧
      ListsFunctions c info.symbol true limits offer.symbols ∧
      FindsFunctions c info.symbol "Poke" home search.symbols := by
  obtain ⟨c, s, same, bound, wf, top, apart, arises, fits⟩ := exists_session accessForms
    (fun c s =>
      (isStaticAccess c ⟨22⟩ s).toOption.any fun (a : Bool × Session) => a.1 &&
        (typeOf c ⟨21⟩ a.2).toOption.any fun (r : Option TypeId × Session) =>
          (symbolsFor c ⟨22⟩ a.2).toOption.any fun (q : Search × Session) =>
            (available c ⟨22⟩ {.function} .everything s).toOption.any fun (l : Search × Session) =>
              decide (q.1.symbols = [⟨1⟩] ∧ l.1.symbols = [⟨2⟩]) && r.1.any fun type =>
                (r.2.types.get? type).any TypeInfo.isScript)
    (by decide +kernel) (by decide +kernel) (by decide +kernel) (by decide +kernel)
  obtain ⟨⟨static, s'⟩, asked, askedFits⟩ := exists_ok_of_any fits
  obtain ⟨isStatic, typedFits⟩ := Bool.and_eq_true_iff.1 askedFits
  obtain rfl : static = true := isStatic
  obtain ⟨⟨answer, t⟩, typed, foundFits⟩ := exists_ok_of_any typedFits
  obtain ⟨⟨search, u⟩, found, listedFits⟩ := exists_ok_of_any foundFits
  obtain ⟨⟨offer, v⟩, listed, both⟩ := exists_ok_of_any listedFits
  obtain ⟨symbols, answerFits⟩ := Bool.and_eq_true_iff.1 both
  obtain ⟨foundSymbols, listedSymbols⟩ := of_decide_eq_true symbols
  obtain ⟨type, answered, typeFits⟩ := (Option.any_eq_true _ _).1 answerFits
  obtain rfl : answer = some type := answered
  obtain ⟨info, hi, isScript⟩ := (Option.any_eq_true _ _).1 typeFits
  have based : c.tree.baseFor ⟨22⟩ = .ok (some ⟨21⟩) := same ▸ by decide +kernel
  have named : c.tree.nameOf ⟨22⟩ = .ok (some "Poke") := same ▸ by decide +kernel
  obtain ⟨-, -, limits, home, limited, -, -, -, lists, finds⟩ := functions_behind_point bound wf top
    apart arises based named asked typed hi isScript found listed
  exact ⟨c, s, s', t, u, v, type, info, search, offer, same, bound, wf, top, apart, arises, based,
    named, asked, typed, hi, isScript, found, listed, foundSymbols, listedSymbols, limits, home,
    limited, lists, finds⟩

/-- The name of a call through a script leads to a function, where the access is static or not and
the function global or not. -/
def CallLeads (c : Codebase) (s : Session) (identifier base : NodeId) (static isGlobal : Bool) :
    Prop :=
  ∃ s' t u type info search id symbol, isStaticAccess c identifier s = .ok (static, s') ∧
    typeOf c base s' = .ok (some type, t) ∧ t.types.get? type = some info ∧ info.isScript ∧
    symbolsFor c identifier s' = .ok (search, u) ∧ id ∈ search.symbols ∧
    c.symbols.get? id = some symbol ∧ symbol.kind = .function ∧ symbol.isGlobal = isGlobal

/-- Whether the name of a call leads to a function as `CallLeads` says. -/
def callLeads (c : Codebase) (s : Session) (identifier base : NodeId) (static isGlobal : Bool) :
    Bool :=
  (isStaticAccess c identifier s).toOption.any fun asked => decide (asked.1 = static) &&
    (typeOf c base asked.2).toOption.any fun typed =>
      (typed.1.bind typed.2.types.get?).any TypeInfo.isScript &&
      (symbolsFor c identifier asked.2).toOption.any fun found => found.1.symbols.any fun id =>
        (c.symbols.get? id).any fun symbol => symbol.kind = .function && symbol.isGlobal = isGlobal

theorem CallLeads.of_run {identifier base : NodeId} {static isGlobal : Bool}
    (h : callLeads c s identifier base static isGlobal) :
    CallLeads c s identifier base static isGlobal := by
  obtain ⟨⟨_, s'⟩, asked, askedFits⟩ := exists_ok_of_any h
  obtain ⟨same, typeFits⟩ := Bool.and_eq_true_iff.1 askedFits
  cases of_decide_eq_true same
  obtain ⟨⟨answer, t⟩, typed, answerFits⟩ := exists_ok_of_any typeFits
  obtain ⟨known, searchFits⟩ := Bool.and_eq_true_iff.1 answerFits
  obtain ⟨info, hi, isScript⟩ := (Option.any_eq_true _ _).1 known
  obtain ⟨type, rfl, hi⟩ := Option.bind_eq_some_iff.1 hi
  obtain ⟨⟨search, u⟩, found, fits⟩ := exists_ok_of_any searchFits
  obtain ⟨id, member, fits⟩ := List.any_eq_true.1 fits
  obtain ⟨symbol, hs, fits⟩ := (Option.any_eq_true _ _).1 fits
  obtain ⟨function, sort⟩ := Bool.and_eq_true_iff.1 fits
  exact ⟨s', t, u, type, info, search, id, symbol, asked, typed, hi, isScript, found, member, hs,
    of_decide_eq_true function, of_decide_eq_true sort⟩

/-- Through a script as such a function is found that is not global, and through an instance one
that is. -/
theorem access_mixes_functions : ∃ (c : Codebase) (s : Session),
    c.tree = .ofForms accessForms ∧ c.Bound ∧ c.tree.WellFormed ∧ c.tree.ScriptsOnTop ∧
    c.ScriptsApart ∧ s.Arises c ∧ CallLeads c s ⟨22⟩ ⟨21⟩ true false ∧
    CallLeads c s ⟨28⟩ ⟨27⟩ false true := by
  obtain ⟨c, s, same, bound, wf, top, apart, arises, fits⟩ := exists_session accessForms
    (fun c s => callLeads c s ⟨22⟩ ⟨21⟩ true false && callLeads c s ⟨28⟩ ⟨27⟩ false true)
    (by decide +kernel) (by decide +kernel) (by decide +kernel) (by decide +kernel)
  obtain ⟨static, other⟩ := Bool.and_eq_true_iff.1 fits
  exact ⟨c, s, same, bound, wf, top, apart, arises, .of_run static, .of_run other⟩

end Query

end PapyrusAnalysis
