import PapyrusAnalysis.Proofs.Session.Exposure

/-!
# What comes before its name

The name of a declaration can lead to a local variable first: to the declared one, if a parameter or
a variable is declared, or to one of the variables of an event that is called like the event. The
declared variable starts with its declaration, and the statements of an event are made before its
name. So neither comes after the name, unless the declared variable has been ousted.

## Main statements

* `Codebase.Announces.precedes_or_ousted`: a local variable that the name of a declaration leads to
  does not come after the name.
-/

namespace PapyrusAnalysis

namespace Tree

variable {t : Tree} {x body : NodeId} {bodies : List NodeId}

theorem Within.antisymm {a : NodeId} (grown : t.Grown) (h : t.Within x a) (h' : t.Within a x) :
    x = a := by
  have le := h.index_le grown
  have ge := h'.index_le grown
  cases x
  cases a
  exact congrArg NodeId.mk (Nat.le_antisymm le ge)

/-- The innermost container comes first. -/
theorem Nested.eq_cons (nested : t.Nested x bodies) (grown : t.Grown)
    (inside : t.Within x body) (hb : t.isWanted (Binding.keeps .locals) body)
    (innermost : ∀ other, t.Within x other → t.isWanted (Binding.keeps .locals) other →
      t.Within body other) : ∃ outer, bodies = body :: outer := by
  have listed : body ∈ bodies := (nested.mem_iff body).2 ⟨inside, hb⟩
  cases bodies with
  | nil => cases listed
  | cons first outer =>
    refine ⟨outer, ?_⟩
    rcases List.mem_cons.1 listed with rfl | later
    · rfl
    · obtain ⟨around, keeps⟩ := (nested.mem_iff first).1 List.mem_cons_self
      obtain ⟨apart, within⟩ := (List.pairwise_cons.1 nested.insideOut).1 body later
      exact absurd (within.antisymm grown (innermost first around keeps)) apart

end Tree

namespace Builder

variable {b : Builder} {x y : NodeId} {form : Form} {range inner : Range}

theorem Laid.index_le_of_leadsTo (laid : b.Laid) (h : b.tree.LeadsTo x y) : y.index ≤ x.index := by
  induction h with
  | refl => exact Nat.le_refl _
  | part hform hc _ ih => exact Nat.le_trans ih (Nat.le_of_lt (laid.parts hform _ hc))

/-- What was made before a leaf stands before it. -/
theorem Laid.before_leaf (laid : b.Laid) (earlier : x.index < y.index) (isLeaf : b.tree.IsLeaf y)
    (hx : b.tree.rangeAt x = some range) (hy : b.tree.rangeAt y = some inner) :
    range.stop < inner.start := by
  refine laid.before (fun leaf other below below' => ?_) hx hy
  have le := laid.index_le_of_leadsTo below.1
  obtain ⟨form, hf, bare⟩ := isLeaf
  cases below'.1 with
  | refl => omega
  | part hform hc =>
    cases hf.symm.trans hform
    simp [bare] at hc

/-- A part starts no earlier than the whole. -/
theorem Laid.start_le_of_part (laid : b.Laid) (hf : b.tree.formAt x = some form)
    (part : y ∈ form.children) (hx : b.tree.rangeAt x = some range)
    (hy : b.tree.rangeAt y = some inner) : range.start ≤ inner.start := by
  have hull := laid.hulls hf (List.ne_nil_of_mem part) hx
  obtain ⟨inner', hy', contains⟩ := hull.encloses y part
  cases hy.symm.trans hy'
  rw [Range.containsRange_iff] at contains
  exact contains.1

end Builder

/-- The symbol of a type is that of a script or struct, if the codebase has it. -/
theorem TypeInfo.Fits.kind_of_owned {c : Codebase} {s : Session} {info : TypeInfo}
    {symbol : Symbol} (fits : info.Fits c s) (hs : c.symbols.get? info.symbol = some symbol) :
    symbol.kind = .script ∨ symbol.kind = .struct := by
  have owned := SymbolTable.owns_of_get? hs
  have stands {kind : SymbolKind} (h : info.Stands c kind) : symbol.kind = kind := by
    obtain ⟨symbol', hs', kind, -⟩ := h
    cases hs.symm.trans hs'
    exact kind
  cases hf : info.form with
  | intrinsic kind => exact absurd owned (fits.foreign (.inl (by simp [TypeInfo.isIntrinsic, hf])))
  | script structs => exact .inl (stands (fits.script (by simp [TypeInfo.isScript, hf])))
  | struct script => exact .inr (stands (fits.struct (by simp [TypeInfo.isStruct, hf])))
  | array element => exact absurd owned (fits.foreign (.inr (by simp [TypeInfo.isArray, hf])))

namespace Codebase

open Binding

variable {c : Codebase} {root x y identifier container : NodeId} {kind : SymbolKind}
  {s s' : Session} {search : Search} {first : SymbolId} {rest : List SymbolId} {symbol : Symbol}
  {range inner : Range} {bodies : List NodeId} {shown : List SymbolId}

/-- A member of a script is no local variable. -/
theorem IsMember.not_declaration (firm : c.Firm) (member : c.IsMember first)
    (hs : c.symbols.get? first = some symbol) (hd : symbol.declaration = some y) :
    c.tree.isWanted isDeclaration y = false := by
  obtain ⟨script, above, known, -, listed⟩ := member
  obtain ⟨symbol', y', hs', hd', bare⟩ := (firm.symbols.fits known).members first listed
  cases hs.symm.trans hs'
  cases hd.symm.trans hd'
  exact bare

/-- If a container keeps a symbol with a name, it keeps no other one. -/
theorem Bound.kept_eq_singleton (bound : c.Bound) {kinds : FlagSet MemberKind} {name : String}
    (kept : first ∈ (c.kept kinds container).filter (c.isCalled name)) :
    (c.kept kinds container).filter (c.isCalled name) = [first] := by
  have once := bound.kept_once kinds name container
  obtain ⟨only, same⟩ := List.length_eq_one_iff.1
    (Nat.le_antisymm once (List.length_pos_of_mem kept))
  rw [same] at kept ⊢
  rw [List.mem_singleton.1 kept]

namespace Announces

variable (a : c.Announces root x kind identifier) (h : c.Regular)

include a h

/-- A local variable that a container around the identifier of a declaration keeps is a statement of
the container. -/
theorem statement_of_kept (hs : c.symbols.get? first = some symbol)
    (hd : symbol.declaration = some y) (hy : c.tree.isWanted isDeclaration y)
    (around : c.tree.Within identifier container)
    (held : first ∈ (c.symbols.names .locals container).values) :
    ∃ above statements, c.tree.formAt container = some above ∧
      above.block? = some statements ∧ y ∈ statements := by
  have inside := h.grammatical.within_of_around h.grown a.script
    (((a.titled h).within h.wellFormed).trans h.grown a.within) around
  obtain ⟨y', title, represents, -, -, innermost⟩ := h.announces_of_kept a.script inside hs held
  cases hd.symm.trans represents.declared
  obtain ⟨form, hf, isDecl⟩ := isWanted_iff.1 hy
  cases form <;> simp only [isDeclaration, Bool.false_eq_true] at isDecl
  exact block_of_innermost h.grammatical h.grown hf innermost

/-- The name of a parameter or local variable leads to itself first, unless it has been ousted. -/
theorem first_or_ousted (isVar : kind.memberKind? = some .var) {form : Form}
    (hx : c.tree.formAt x = some form) (plain : keeps .locals form = false)
    (around : c.tree.Within identifier container)
    (hc : c.tree.isWanted (keeps .locals) container)
    (surrounds : c.Surrounds identifier ((limitOf kind).getD MemberKind.anywhere) bodies shown)
    (called : c.called ((limitOf kind).getD MemberKind.anywhere) (c.tree.nameAt identifier) bodies
      shown = first :: rest) : DeclaredAt c.symbols first x ∨ c.Ousted x kind identifier := by
  have table : tableOf kind = some .locals := by cases kind <;> first | rfl | cases isVar
  have bare : c.tree.isWanted (keeps .locals) x = false := (isWanted_of_formAt hx _).trans plain
  have outside {other : NodeId} (around : c.tree.Within identifier other)
      (ho : c.tree.isWanted (keeps .locals) other) : c.tree.Within x other ∧ other ≠ x := by
    refine ⟨(a.titled h).within_of_keeps h.wellFormed around ho, ?_⟩
    rintro rfl
    cases bare.symm.trans ho
  obtain ⟨within, ne⟩ := outside around hc
  obtain ⟨keeper, innermost⟩ := h.grown.exists_innermost within ne hc
  have place := a.place?_of_innermost h table innermost
  obtain ⟨holder, found⟩ := a.exists_holder h place
  by_cases own : DeclaredAt c.symbols holder x
  · left
    have inside : c.tree.Within identifier keeper :=
      ((a.titled h).within h.wellFormed).trans h.grown (innermost.within h.grown)
    obtain ⟨outer, rfl⟩ := surrounds.nested.eq_cons h.grown inside innermost.isWanted
      fun other around ho => (innermost.within_of_wanted h.grown (outside around ho).1
        ho).resolve_left (outside around ho).2
    obtain ⟨id, symbol, known, declared, ofKind, name⟩ := a.exists_symbol h
    obtain rfl := h.declares.biUnique.left own ⟨symbol, known, declared⟩
    have allowed : ((limitOf kind).getD MemberKind.anywhere).has .var := by
      cases kind <;> first | decide | cases isVar
    have kept : holder ∈ (c.kept ((limitOf kind).getD MemberKind.anywhere) keeper).filter
        (c.isCalled (c.tree.nameAt identifier)) := by
      refine List.mem_filter.2 ⟨List.mem_filter.2 ⟨Registry.mem_values_of_find? found, ?_⟩, ?_⟩
      · rw [known, Option.any_some, ofKind, isVar]
        exact allowed
      · rw [isCalled, known, Option.any_some, name]
        exact Text.sameFolded_refl _
    rw [Codebase.called, List.flatMap_cons, h.bound.kept_eq_singleton kept] at called
    cases called
    exact own
  · exact .inr ⟨keeper, holder, place, found, own⟩

/-- A local variable that the name of a declaration leads to first is kept by a container around the
name. -/
theorem kept_of_local (settled : s.Settled c) (notGroup : kind ≠ .group) (notState : kind ≠ .state)
    (notParent : Text.sameFolded (c.tree.nameAt identifier) "parent" = false)
    (asked : Query.symbolsFor c identifier s = .ok (search, s'))
    (found : search.symbols = first :: rest) (hs : c.symbols.get? first = some symbol)
    (isVar : symbol.kind = .var) (hd : symbol.declaration = some y)
    (hy : c.tree.isWanted isDeclaration y) :
    ∃ bodies shown container,
      c.Surrounds identifier ((limitOf kind).getD MemberKind.anywhere) bodies shown ∧
      c.called ((limitOf kind).getD MemberKind.anywhere) (c.tree.nameAt identifier) bodies shown =
        first :: rest ∧
      c.tree.Within identifier container ∧ c.tree.isWanted (keeps .locals) container ∧
      first ∈ (c.symbols.names .locals container).values ∧
      ((limitOf kind).getD MemberKind.anywhere).has .var := by
  cases notSelf : Text.sameFolded (c.tree.nameAt identifier) "self" with
  | true =>
    obtain ⟨-, -, script, above, known, ofScript, same⟩ :=
      (a.runs_self h settled notSelf).of_ok asked
    cases found.symm.trans same
    cases hs.symm.trans known
    cases isVar.symm.trans ofScript
  | false =>
    obtain ⟨-, settled', bodies, shown, surrounds, answers⟩ :=
      (a.runs_answers h settled notGroup notState notSelf notParent).of_ok asked
    rw [found] at answers
    rcases answers with ⟨-, called⟩ | ⟨-, ⟨type, info, -, hi, -, one⟩ | ⟨-, none⟩⟩
    · have inside : first ∈ c.called ((limitOf kind).getD MemberKind.anywhere)
          (c.tree.nameAt identifier) bodies shown := called ▸ List.mem_cons_self
      rcases List.mem_append.1 inside with kept | isShown
      · obtain ⟨container, hc, kept⟩ := List.mem_flatMap.1 kept
        obtain ⟨held, allowed⟩ := List.mem_filter.1 (List.mem_filter.1 kept).1
        obtain ⟨around, keeps⟩ := (surrounds.nested.mem_iff container).1 hc
        rw [hs, Option.any_some, isVar] at allowed
        exact ⟨bodies, shown, container, surrounds, called.symm, around, keeps, held, allowed⟩
      · have member := surrounds.isMember h.firm (List.mem_filter.1 isShown).1
        cases (member.not_declaration h.firm hs hd).symm.trans hy
    · cases one
      rcases (settled'.infos hi).kind_of_owned hs with kind | kind <;> cases isVar.symm.trans kind
    · cases none

/-- Statements around a declaration belong to it, if it is not a parameter or local variable. -/
theorem local_or_body {form above : Form} {statements : List NodeId}
    (hx : c.tree.formAt x = some form) (outside : c.tree.Within x container)
    (hc : c.tree.formAt container = some above) (block : above.block? = some statements) :
    kind.memberKind? = some .var ∧ keeps .locals form = false ∧ identifier ∈ form.children ∨
      ∃ header, form = .event header statements ∨ form = .function header statements := by
  have declared := a.declared
  rw [Tree.declaration?, hx] at declared
  -- Nothing else with statements is around a definition.
  have defined (defines : isDefinition form) : form.block? = some statements := by
    have same := (block_around h.grammatical h.grown hx defines outside hc).resolve_right
      fun none => by cases none.symm.trans block
    rw [same, hx] at hc
    cases hc
    exact block
  cases form with
  | script header imports definitions =>
    have top := h.grammatical.parentAt_script h.grown (isWanted_of_formAt hx _)
    obtain ⟨-, rfl⟩ := (Tree.within_of_no_parent top).1 outside
    cases hx.symm.trans hc
    cases block
  | event header parts =>
    cases defined rfl
    exact .inr ⟨header, .inl rfl⟩
  | function header parts =>
    cases defined rfl
    exact .inr ⟨header, .inr rfl⟩
  | parameter | declaration =>
    cases declared
    exact .inl ⟨rfl, rfl, by simp [Form.children]⟩
  | struct | customEvent | variableDefinition | group | state | property => cases defined rfl
  | importLine =>
    cases declared
    exact absurd rfl a.genuine
  | _ => cases declared

/-- A local variable that the name of a declaration leads to first does not come after the name,
unless the declaration has been ousted. -/
theorem precedes_or_ousted (settled : s.Settled c) (notGroup : kind ≠ .group)
    (notState : kind ≠ .state)
    (notParent : Text.sameFolded (c.tree.nameAt identifier) "parent" = false)
    (asked : Query.symbolsFor c identifier s = .ok (search, s'))
    (found : search.symbols = first :: rest) (hs : c.symbols.get? first = some symbol)
    (isVar : symbol.kind = .var) (hd : symbol.declaration = some y)
    (hy : c.tree.isWanted isDeclaration y) (hrange : c.tree.rangeAt y = some range)
    (hinner : c.tree.rangeAt identifier = some inner) :
    range.start < inner.stop ∨ c.Ousted x kind identifier := by
  obtain ⟨b, ids, built, same⟩ := h.built
  have laid := built.laid.1
  rw [← same] at hrange hinner
  have filled := (laid.bounds hinner).1
  have titled := a.titled h
  obtain ⟨bodies, shown, container, surrounds, called, around, holds, held, allowed⟩ :=
    a.kept_of_local h settled notGroup notState notParent asked found hs isVar hd hy
  obtain ⟨above, statements, hc, block, hm⟩ := a.statement_of_kept h hs hd hy around held
  have outside := titled.within_of_keeps h.wellFormed around holds
  obtain ⟨n, hn⟩ := Tree.node?_of_declaration? a.declared
  have hx := Tree.formAt_eq hn
  have declared := a.declared
  rw [Tree.declaration?, hx] at declared
  rcases a.local_or_body h hx outside hc block with ⟨isLocal, plain, part⟩ | ⟨header, hf | hf⟩
  · -- The variable is the declared one, which starts before its name.
    refine (a.first_or_ousted h isLocal hx plain around holds surrounds called).imp_left ?_
    rintro ⟨symbol', hs', hd'⟩
    cases hs.symm.trans hs'
    cases hd.symm.trans hd'
    have starts := laid.start_le_of_part (same ▸ hx) part hrange hinner
    omega
  · -- The variable is a statement of an event, and these are made before the name of the event.
    obtain ⟨title, parameters, hg, before⟩ := h.limited.events (hx.trans (congrArg some hf))
    simp only [hf, hg, Option.some.injEq, Prod.mk.injEq] at declared
    obtain ⟨-, rfl⟩ := declared
    have stops := laid.before_leaf (before y hm) (same ▸ titled.isLeaf) hrange hinner
    have starts := (laid.bounds hrange).1
    omega
  · -- The name of a function does not lead to variables.
    simp only [hf] at declared
    split at declared
    · cases declared
      exact absurd allowed (by decide)
    · cases declared

end Announces

end Codebase

end PapyrusAnalysis
