import PapyrusAnalysis.Proofs.Program
import PapyrusAnalysis.Proofs.Session.Precedence
import PapyrusAnalysis.Proofs.Validation.Conduct

/-!
# The names of declarations in reports

A validation asks what the name of a declaration leads to, as for any other name. Since every leaf
of a tree that was built has a place of its own, a diagnostic at the name of a declaration goes back
to the answer. So a validation does not complain that the name is not found, unless the declaration
is eclipsed, and not that it is used too early, if binding had nothing to report.

## Main definitions

* `Diagnostic.Tells`: a diagnostic has a message about a node.
* `Tree.AsciiNames`: all declared names are made of ASCII characters.

## Main statements

* `Query.declared_names_found`: what is reported at the names of declarations.
-/

namespace PapyrusAnalysis

/-- A diagnostic has a message about a node. -/
def Diagnostic.Tells (d : Diagnostic) (t : Tree) (node : NodeId) (message : Message) : Prop :=
  d.code = message.code ∧ ∃ range span, t.rangeAt node = some range ∧ range.toSpan = .ok span ∧
    d.span = some span

theorem Diagnostic.Tells.of_test {d : Diagnostic} {t : Tree} {node : NodeId} {message : Message}
    (code : d.code = message.code) (h : (t.rangeAt node).any fun range =>
      range.toSpan.toOption.any fun span => d.span = some span) : d.Tells t node message := by
  obtain ⟨range, hrange, found⟩ := (Option.any_eq_true _ _).1 h
  obtain ⟨span, toSpan, here⟩ := exists_ok_of_any found
  exact ⟨code, range, span, hrange, toSpan, of_decide_eq_true here⟩

/-- All declared names are made of ASCII characters. -/
def Tree.AsciiNames (t : Tree) : Prop :=
  ∀ {node kind identifier}, t.declaration? node = some (kind, identifier) →
    ∀ letter ∈ (t.nameAt identifier).toList, letter.toNat < 128

/-! ## Places -/

theorem Tree.rangeAt_of_range {t : Tree} {node : NodeId} {range : Range}
    (h : t.range node = .ok range) : t.rangeAt node = some range := by
  by_cases has : t.Has node
  · obtain ⟨n, hn⟩ := has.node?
    cases (range_eq_ok hn).symm.trans h
    simp [rangeAt, hn]
  · rw [Tree.range, node_eq_error has] at h
    cases h

theorem Range.toSpan_inj {range other : Range} {span : Span} (h : range.toSpan = .ok span)
    (h' : other.toSpan = .ok span) : range = other := by
  have bounds {r : Range} (h : r.toSpan = .ok span) :
      span.start = r.start ∧ r.stop = span.start + span.length := by
    simp only [toSpan, Span.ofBounds] at h
    split at h
    · cases h
      exact ⟨rfl, by simp only; omega⟩
    · cases h
  obtain ⟨start, stop⟩ := bounds h
  obtain ⟨start', stop'⟩ := bounds h'
  cases range
  cases other
  simp_all

namespace Builder

variable {b : Builder} {x y : NodeId} {form : Form} {range : Range}

/-- Different leaves have different places. -/
theorem Laid.eq_of_leaf (laid : b.Laid) (hx : b.tree.IsLeaf x) (hy : b.tree.IsLeaf y)
    (hrange : b.tree.rangeAt x = some range) (hrange' : b.tree.rangeAt y = some range) : x = y := by
  have ordered := (laid.bounds hrange).1
  rcases Nat.lt_trichotomy x.index y.index with less | same | more
  · have apart := laid.leaves hx hy less hrange hrange'
    omega
  · cases x
    cases y
    exact congrArg NodeId.mk same
  · have apart := laid.leaves hy hx more hrange' hrange
    omega

/-- A node with one part has the place of the part. -/
theorem Laid.rangeAt_of_single (laid : b.Laid) (hf : b.tree.formAt x = some form)
    (single : form.children = [y]) (hrange : b.tree.rangeAt x = some range) :
    b.tree.rangeAt y = some range := by
  have hull := laid.hulls hf (by simp [single]) hrange
  rw [single] at hull
  obtain ⟨first, hfirst, inner, known, starts⟩ := hull.starts
  obtain ⟨last, hlast, inner', known', stops⟩ := hull.stops
  cases List.mem_singleton.1 hfirst
  cases List.mem_singleton.1 hlast
  cases known.symm.trans known'
  have same : inner = range := by
    cases inner
    cases range
    simp_all
  rwa [same] at known

end Builder

namespace Codebase

open Binding

variable {c : Codebase} {D : Conduct Session} {root x identifier : NodeId} {kind : SymbolKind}
  {d : Diagnostic} {message : Message}

namespace Announces

variable (a : c.Announces root x kind identifier) (h : c.Regular)

include a h

/-- What a validation says about the name of a declaration goes back to the name. -/
theorem grounds_of_tells (remark : Check.Remark c D d) (tells : d.Tells c.tree identifier message)
    (concerns : Check.concernsName message) :
    ∃ other, other.code = message.code ∧ Check.Grounds c D identifier other := by
  obtain ⟨node, other, arguments, range, grounds, hrange, made⟩ := remark
  obtain ⟨code, range', span, hrange', toSpan, hspan⟩ := tells
  obtain ⟨span', toSpan', plain⟩ := exists_of_bind_eq_ok made
  cases plain
  cases hspan
  obtain rfl := Range.toSpan_inj toSpan toSpan'
  obtain ⟨b, ids, built, same⟩ := h.built
  have laid := built.laid.1
  have titled := a.titled h
  have isLeaf : b.tree.IsLeaf identifier := same ▸ titled.isLeaf
  have known : b.tree.rangeAt node = some range' := same ▸ Tree.rangeAt_of_range hrange
  rw [← same] at hrange'
  have here (hform : c.tree.IsLeaf node) : node = identifier :=
    laid.eq_of_leaf (same ▸ hform) isLeaf known hrange'
  refine ⟨other, code, ?_⟩
  cases grounds with
  | other foreign =>
    rw [Check.concernsName, show other.code = message.code from code] at foreign
    cases foreign.symm.trans concerns
  | @unknownType inner isArray hform =>
    -- The name of a type has the place of its identifier, which is not that of a declaration.
    have hrange'' := laid.rangeAt_of_single (same ▸ hform) rfl known
    have slot : (inner, Role.name) ∈ (Form.typeName inner isArray).slots :=
      List.mem_singleton_self _
    obtain ⟨form, hinner, isName⟩ := h.grammatical.part hform slot
    have leaf : c.tree.IsLeaf inner := ⟨form, hinner, by cases form <;> first | rfl | cases isName⟩
    obtain rfl := laid.eq_of_leaf (same ▸ leaf) isLeaf hrange'' hrange'
    obtain ⟨q, phrase, parent, hq, outline, -⟩ := titled.holder
    cases parent.symm.trans (parentAt_of_child h.wellFormed hform (List.mem_singleton_self _))
    cases hq.symm.trans hform
    cases outline
  | unknownName hform surrounded unlabelled kept asked nothing =>
    obtain rfl := here ⟨_, hform, rfl⟩
    exact .unknownName hform surrounded unlabelled kept asked nothing
  | earlyUse hform surrounded unlabelled kept asked found kept' late =>
    obtain rfl := here ⟨_, hform, rfl⟩
    exact .earlyUse hform surrounded unlabelled kept asked found kept' late

/-- The names of groups and states are not looked up. -/
theorem not_group_of_unlabelled {around : Option Form}
    (surrounded : Check.phraseAround c identifier = .ok around)
    (unlabelled : Check.isLabel identifier around = false) : kind ≠ .group ∧ kind ≠ .state := by
  have titled := a.titled h
  obtain ⟨q, phrase, parent, hq, -, -, -, label⟩ := titled.holder
  obtain ⟨n, hn, hform⟩ := Option.map_eq_some_iff.1 hq
  have found : Check.phraseAround c identifier = .ok (some phrase) := by
    rw [Check.phraseAround, Tree.parent_eq (Tree.has_of_formAt titled.named), parent]
    change (c.tree.form q >>= fun form => Except.ok (some form)) = _
    rw [Tree.form_eq_ok hn, hform]
    rfl
  cases surrounded.symm.trans found
  have other (special : kind = .group ∨ kind = .state) : False := by
    cases unlabelled.symm.trans (label special)
  exact ⟨fun eq => other (.inl eq), fun eq => other (.inr eq)⟩

/-- A name that is not found belongs to a declaration that is eclipsed. -/
theorem eclipsed_of_tells (remark : Check.Remark c (Session.settling c) d)
    (tells : d.Tells c.tree identifier .cannotFindName)
    (notParent : Text.sameFolded (c.tree.nameAt identifier) "parent" = false) :
    c.Eclipsed x kind identifier := by
  obtain ⟨other, code, grounds⟩ := a.grounds_of_tells h remark tells (by decide)
  cases grounds with
  | other foreign =>
    rw [Check.concernsName, code] at foreign
    cases foreign
  | unknownType hform => cases (a.titled h).named.symm.trans hform
  | unknownName hform surrounded unlabelled kept asked nothing =>
    obtain ⟨notGroup, notState⟩ := a.not_group_of_unlabelled h surrounded unlabelled
    obtain ⟨-, -, found⟩ := (a.runs_found h kept notGroup notState notParent).of_ok asked
    exact found.resolve_left (not_not.2 nothing)
  | earlyUse => exact absurd code (by decide)

end Announces

end Codebase

namespace Check

open Binding

variable {c : Codebase} {p p' : Progress} {first : SymbolId} {node : NodeId}

/-- A symbol that belongs to a block is declared by a statement. -/
theorem isDeclaration_of_isBlockScoped {s t : Session} {symbol : Symbol} {y : NodeId}
    (hs : s.symbol? c first = some symbol) (hd : symbol.declaration = some y)
    (h : Query.isBlockScoped c first s = .ok (true, t)) : c.tree.isWanted isDeclaration y := by
  obtain ⟨found, s₁, read, run⟩ := bind_eq_ok h
  cases read
  rw [hs, Option.bind_some, hd] at run
  obtain ⟨form, s₂, read, last⟩ := bind_eq_ok run
  obtain ⟨hform, rfl⟩ := liftM_eq_ok read
  obtain ⟨n, hn, rfl⟩ := Tree.exists_node_of_form hform
  rw [isWanted_of_formAt (Tree.formAt_eq hn)]
  cases hf : n.form <;> rw [hf] at last <;> first | rfl | cases last

/-- A symbol that is declared at a node is one of the codebase. -/
theorem get?_of_declaration {s : Session} {symbol : Symbol} {y : NodeId} (settled : s.Settled c)
    (hs : s.symbol? c first = some symbol) (hd : symbol.declaration = some y) :
    c.symbols.get? first = some symbol := by
  unfold Session.symbol? at hs
  split at hs
  · exact hs
  · cases hd.symm.trans (settled.synthetic hs).1

/-- What is declared after a node is a local variable that starts behind the node. -/
theorem isDeclaredAfter_eq_true (settled : p.session.Settled c)
    (late : isDeclaredAfter c first node p = .ok (true, p')) :
    ∃ symbol y range inner, c.symbols.get? first = some symbol ∧ symbol.kind = .var ∧
      symbol.declaration = some y ∧ c.tree.isWanted isDeclaration y ∧
      c.tree.rangeAt y = some range ∧ c.tree.rangeAt node = some inner ∧
      inner.stop ≤ range.start := by
  obtain ⟨found, p₁, asked, run⟩ := bind_eq_ok late
  obtain ⟨s, known, rfl⟩ := ask_eq_ok asked
  cases known
  cases hs : p.session.symbol? c first with
  | none =>
    rw [hs] at run
    cases run
  | some symbol =>
    rw [hs] at run
    dsimp only at run
    split at run
    · rename_i isVar
      obtain ⟨isLocal, p₂, asked, run⟩ := bind_eq_ok run
      obtain ⟨s, inBlock, rfl⟩ := ask_eq_ok asked
      split at run
      · rename_i yes
        rw [yes] at inBlock
        cases hd : symbol.declaration with
        | none =>
          rw [hd] at run
          cases run
        | some y =>
          rw [hd] at run
          obtain ⟨inner, p₃, read, run⟩ := bind_eq_ok run
          obtain ⟨hinner, rfl⟩ := liftM_eq_ok read
          obtain ⟨range, p₄, read, last⟩ := bind_eq_ok run
          obtain ⟨hrange, rfl⟩ := liftM_eq_ok read
          have behind : decide (inner.stop ≤ range.start) = true :=
            congrArg Prod.fst (Except.ok.inj last)
          exact ⟨symbol, y, range, inner, get?_of_declaration settled hs hd, isVar, hd,
            isDeclaration_of_isBlockScoped hs hd inBlock, Tree.rangeAt_of_range hrange,
            Tree.rangeAt_of_range hinner, of_decide_eq_true behind⟩
      · cases run
    · cases run

end Check

namespace Codebase

open Binding

variable {c : Codebase} {root x identifier : NodeId} {kind : SymbolKind} {d : Diagnostic}
  {b : Binding}

/-- If binding has nothing to report, no declaration has been ousted. -/
theorem Announces.not_ousted (a : c.Announces root x kind identifier) (h : c.Regular)
    (run : Binding.ofTree c.tree = .ok b) (clean : b.report = []) :
    ¬ c.Ousted x kind identifier := by
  rintro ⟨container, holder, place, found, other⟩
  obtain ⟨b', run', same⟩ := h.bound.exists_binding
  cases run.symm.trans run'
  obtain ⟨id, symbol, represents⟩ := a.exists_symbol h
  have accounted := ofTree_accounted run
  have declared : DeclaredAt b.symbols id x :=
    same ▸ ⟨symbol, represents.known, represents.declared⟩
  have refused : Refused c.tree b.symbols id (c.tree.nameAt identifier) := by
    refine (accounted.refused_iff declared a.declared (a.filled h) place).2 fun own => ?_
    rw [same, found] at own
    cases own
    exact other (same ▸ declared)
  obtain ⟨d, complains, -⟩ := refused
  have listed : d ∈ b.report := by
    rw [accounted.report]
    refine List.mem_filterMap.2 ⟨id, SymbolTable.mem_ids.2 ?_, complains⟩
    exact same ▸ SymbolTable.owns_of_get? represents.known
  rw [clean] at listed
  cases listed

/-- What is eclipsed has been ousted. -/
theorem Announces.ousted_of_eclipsed (a : c.Announces root x kind identifier) (h : c.Regular)
    (eclipsed : c.Eclipsed x kind identifier) : c.Ousted x kind identifier := by
  obtain ⟨container, holder, symbol, place, found, known, differs⟩ := eclipsed
  refine ⟨container, holder, place, found, fun own => ?_⟩
  obtain ⟨id, symbol', represents⟩ := a.exists_symbol h
  obtain rfl := h.declares.biUnique.left own ⟨symbol', represents.known, represents.declared⟩
  cases known.symm.trans represents.known
  rw [represents.name, Text.sameFolded_refl] at differs
  cases differs

/-- A name that is used too early belongs to a declaration that has been ousted. -/
theorem Announces.ousted_of_tells (a : c.Announces root x kind identifier) (h : c.Regular)
    (remark : Check.Remark c (Session.settling c) d)
    (tells : d.Tells c.tree identifier .usedBeforeDeclaration)
    (notParent : Text.sameFolded (c.tree.nameAt identifier) "parent" = false) :
    c.Ousted x kind identifier := by
  obtain ⟨other, code, grounds⟩ := a.grounds_of_tells h remark tells (by decide)
  cases grounds with
  | other foreign =>
    rw [Check.concernsName, code] at foreign
    cases foreign
  | unknownType | unknownName => exact absurd code (by decide)
  | earlyUse hform surrounded unlabelled kept asked found kept' late =>
    obtain ⟨notGroup, notState⟩ := a.not_group_of_unlabelled h surrounded unlabelled
    obtain ⟨symbol, y, range, inner, hs, isVar, hd, hy, hrange, hinner, behind⟩ :=
      Check.isDeclaredAfter_eq_true kept' late
    refine (a.precedes_or_ousted h kept notGroup notState notParent asked found hs isVar hd hy
      hrange hinner).resolve_left ?_
    exact Nat.not_lt.2 behind

/-- Among names in ASCII no declaration is eclipsed. -/
theorem Regular.not_eclipsed (h : c.Regular) (ascii : c.tree.AsciiNames)
    (hd : c.tree.declaration? x = some (kind, identifier)) : ¬ c.Eclipsed x kind identifier := by
  rintro ⟨container, holder, symbol, -, found, known, differs⟩
  obtain ⟨symbol', known', key⟩ := h.declares.symbols.entries found
  cases known.symm.trans known'
  obtain ⟨y, title, -, hd', hname⟩ := (h.declares.symbols.fits known).declared
  have plain : ∀ letter ∈ symbol.name.toList, letter.toNat < 128 := by
    rw [hname, Binding.title]
    split
    · have all : unnamed.toList.all fun letter => letter.toNat < 128 := by decide
      exact fun letter hl => of_decide_eq_true (List.all_eq_true.1 all letter hl)
    · exact ascii hd'
  have same := (Text.lowercase_eq_iff_sameFolded (ascii hd) plain).1 key.symm
  cases differs.symm.trans same

end Codebase

namespace Query

variable {c : Codebase} {s : Session} {root x identifier node : NodeId} {kind : SymbolKind}

/-- What binding declares, a validation finds. The name of a declaration leads to a symbol, and no
diagnostic at the name complains about it, unless the declaration is eclipsed. A name that binding
has nothing to report about is not used too early, either. Groups and states have labels, which are
not looked up. Validations do come to a report, unless the session is too crowded. -/
theorem declared_names_found (regular : c.Regular) (arises : s.Arises c)
    (announces : c.Announces root x kind identifier)
    (notParent : Text.sameFolded (c.tree.nameAt identifier) "parent" = false) :
    (kind ≠ .group → kind ≠ .state → ∃ search t, symbolsFor c identifier s = .ok (search, t) ∧
      (search.symbols ≠ [] ∨ c.Eclipsed x kind identifier)) ∧
    (c.tree.Has node → Completes (s.Crowded c) ((validate c node).run' s)) ∧
    ∀ report t, validate c node s = .ok (report, t) → ∀ d ∈ report,
      (d.Tells c.tree identifier .cannotFindName → c.Eclipsed x kind identifier) ∧
      (c.tree.AsciiNames → ¬ d.Tells c.tree identifier .cannotFindName) ∧
      ∀ b, Binding.ofTree c.tree = .ok b → b.report = [] →
        ¬ d.Tells c.tree identifier .cannotFindName ∧
        ¬ d.Tells c.tree identifier .usedBeforeDeclaration := by
  have settled := arises.settled regular.firm
  refine ⟨fun notGroup notState => ?_, fun has => ?_, fun report t run d hd => ?_⟩
  · obtain ⟨search, t, run, -, -, found⟩ := exists_ok_of_settling
      (announces.runs_found regular settled notGroup notState notParent)
    exact ⟨search, t, run, found⟩
  · exact validate_completes regular.sound regular.ordered (arises.sound regular.sound) has
  · have remark := Check.remark_of_validate (Session.steps_settling regular.firm) settled run d hd
    have eclipsed (tells : d.Tells c.tree identifier .cannotFindName) :=
      announces.eclipsed_of_tells regular remark tells notParent
    refine ⟨eclipsed, fun ascii tells => ?_,
      fun b bound clean => ⟨fun tells => ?_, fun tells => ?_⟩⟩
    · exact regular.not_eclipsed ascii announces.declared (eclipsed tells)
    · exact announces.not_ousted regular bound clean
        (announces.ousted_of_eclipsed regular (eclipsed tells))
    · exact announces.not_ousted regular bound clean
        (announces.ousted_of_tells regular remark tells notParent)

/-- A session for what some calls build, if its codebase passes a test. -/
theorem exists_regular (calls : List Builder.Call) (test : Codebase → Session → Bool)
    (h : (Builder.empty.follow [] calls).any fun made =>
      (made.1.tree.isGrammatical && made.1.tree.allNamed && decide made.1.tree.UsesOnce) &&
      (Program.ofTree made.1.tree).toOption.any fun p => decide p.codebase.Unambiguous &&
        (Session.start p.codebase).toOption.any (test p.codebase)) :
    ∃ (c : Codebase) (s : Session), c.Regular ∧ s.Arises c ∧ test c s := by
  obtain ⟨⟨b, ids⟩, followed, fits⟩ := (Option.any_eq_true _ _).1 h
  obtain ⟨shape, fits⟩ := Bool.and_eq_true_iff.1 fits
  obtain ⟨shape, once⟩ := Bool.and_eq_true_iff.1 shape
  obtain ⟨grammatical, named⟩ := Bool.and_eq_true_iff.1 shape
  obtain ⟨p, run, fits⟩ := exists_ok_of_any fits
  obtain ⟨unambiguous, fits⟩ := Bool.and_eq_true_iff.1 fits
  obtain ⟨s, started, passes⟩ := exists_ok_of_any fits
  have same : p.codebase.tree = b.tree := Program.tree_foldlM run
  refine ⟨p.codebase, s, ?_, ⟨s, started, .refl⟩, passes⟩
  exact {
    bound := .program run
    apart := Codebase.Unambiguous.scriptsApart (of_decide_eq_true unambiguous)
    built := ⟨b, ids, Builder.Built.empty.follow followed, same.symm⟩
    once := same ▸ of_decide_eq_true once
    grammatical := same ▸ Tree.isGrammatical_iff.1 grammatical
    named := same ▸ Tree.named_of_allNamed named }

/-- A variable in a branch, with the name of a parameter in another case:

    ScriptName A
    Function F(Int É)
      If True
        Int é
      EndIf
    EndFunction -/
theorem branch_variable_found : ∃ (c : Codebase) (s : Session), c.Regular ∧ s.Arises c ∧
    c.Announces ⟨18⟩ ⟨7⟩ .var ⟨6⟩ ∧
    Text.sameFolded (c.tree.nameAt ⟨6⟩) "parent" = false ∧
    (∃ search t, symbolsFor c ⟨6⟩ s = .ok (search, t) ∧ search.symbols ≠ []) ∧
    ∃ report t, validate c ⟨18⟩ s = .ok (report, t) ∧ ∀ d ∈ report,
      ¬ d.Tells c.tree ⟨6⟩ .cannotFindName ∧ ¬ d.Tells c.tree ⟨6⟩ .usedBeforeDeclaration := by
  obtain ⟨c, s, regular, arises, fits⟩ := exists_regular
    [.parameter "Int" "É", .declaration "Int" "é" none, .literalExpression (.bool true),
      .ifChain [(some ⟨9⟩, [⟨7⟩])], .function none "F" [⟨3⟩] ∅ [⟨11⟩],
      .script "A" none ∅ [] [⟨15⟩]]
    (fun c s => decide (c.Announces ⟨18⟩ ⟨7⟩ .var ⟨6⟩ ∧
        Text.sameFolded (c.tree.nameAt ⟨6⟩) "parent" = false) &&
      (Binding.ofTree c.tree).toOption.any (·.report = []) &&
      (validate c ⟨18⟩ s).toOption.any fun _ => true)
    (by decide +kernel)
  obtain ⟨fits, validated⟩ := Bool.and_eq_true_iff.1 fits
  obtain ⟨fits, binds⟩ := Bool.and_eq_true_iff.1 fits
  obtain ⟨announces, notParent⟩ := of_decide_eq_true fits
  obtain ⟨b, bound, clean⟩ := exists_ok_of_any binds
  obtain ⟨⟨report, t⟩, run, -⟩ := exists_ok_of_any validated
  have empty : b.report = [] := of_decide_eq_true clean
  have shown : ¬ c.Eclipsed ⟨7⟩ .var ⟨6⟩ := fun eclipsed =>
    announces.not_ousted regular bound empty (announces.ousted_of_eclipsed regular eclipsed)
  obtain ⟨finds, -, tells⟩ := declared_names_found regular arises announces notParent
  obtain ⟨search, u, answer, found⟩ := finds (by decide) (by decide)
  exact ⟨c, s, regular, arises, announces, notParent,
    ⟨search, u, answer, found.resolve_right shown⟩, report, t, run,
    fun d hd => (tells report t run d hd).2.2 b bound empty⟩

/-- A variable whose name differs from that of another one in the case of a letter outside of ASCII
is eclipsed, and a validation does not find its name:

    ScriptName A
    Function F()
      Int É
      Int é
    EndFunction -/
theorem eclipsed_variable_not_found : ∃ (c : Codebase) (s : Session), c.Regular ∧ s.Arises c ∧
    c.Announces ⟨14⟩ ⟨7⟩ .var ⟨6⟩ ∧
    Text.sameFolded (c.tree.nameAt ⟨6⟩) "parent" = false ∧ c.Eclipsed ⟨7⟩ .var ⟨6⟩ ∧
    ∃ report t, validate c ⟨14⟩ s = .ok (report, t) ∧
      ∃ d ∈ report, d.Tells c.tree ⟨6⟩ .cannotFindName := by
  obtain ⟨c, s, regular, arises, fits⟩ := exists_regular
    [.declaration "Int" "É" none, .declaration "Int" "é" none,
      .function none "F" [] ∅ [⟨3⟩, ⟨7⟩], .script "A" none ∅ [] [⟨11⟩]]
    (fun c s => decide (c.Announces ⟨14⟩ ⟨7⟩ .var ⟨6⟩ ∧
        Text.sameFolded (c.tree.nameAt ⟨6⟩) "parent" = false) &&
      (validate c ⟨14⟩ s).toOption.any fun answer => answer.1.any fun d =>
        d.code = Message.cannotFindName.code && (c.tree.rangeAt ⟨6⟩).any fun range =>
          range.toSpan.toOption.any fun span => d.span = some span)
    (by decide +kernel)
  obtain ⟨fits, validated⟩ := Bool.and_eq_true_iff.1 fits
  obtain ⟨announces, notParent⟩ := of_decide_eq_true fits
  obtain ⟨⟨report, t⟩, run, lost⟩ := exists_ok_of_any validated
  obtain ⟨d, hd, told⟩ := List.any_eq_true.1 lost
  obtain ⟨code, place⟩ := Bool.and_eq_true_iff.1 told
  have tells : d.Tells c.tree ⟨6⟩ .cannotFindName := .of_test (of_decide_eq_true code) place
  have settled := arises.settled regular.firm
  have remark := Check.remark_of_validate (Session.steps_settling regular.firm) settled run d hd
  exact ⟨c, s, regular, arises, announces, notParent,
    announces.eclipsed_of_tells regular remark tells notParent, report, t, run, d, hd, tells⟩

end Query

end PapyrusAnalysis
