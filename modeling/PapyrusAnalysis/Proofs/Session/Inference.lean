import PapyrusAnalysis.Proofs.Session.Scope
import PapyrusAnalysis.Session.Inference

/-!
# Inference in corresponding sessions

The two questions of name look-up are answered from smaller questions. If these are answered alike
in corresponding sessions, then so are the questions themselves. A question about a type makes its
node pending, and no question about symbols leads to another one without a question about a type in
between, so the nodes that are not pending bound how many questions there can be inside each other.

## Main definitions

* `Inference.TypesAgree`, `Inference.SymbolsAgree`: questions that are answered alike.
* `Tree.unvisited`: the number of nodes that are not pending.
-/

namespace PapyrusAnalysis

namespace Tree

variable {t : Tree} {node : NodeId}

/-- The number of nodes that are not pending. -/
def unvisited (t : Tree) (pending : List NodeId) : Nat :=
  (t.ids.filter fun id => !pending.contains id).length

theorem mem_ids : node ∈ t.ids ↔ t.Has node := by
  obtain ⟨index⟩ := node
  simp [ids, Has]

theorem unvisited_cons_lt {pending : List NodeId} (has : t.Has node) (fresh : node ∉ pending) :
    t.unvisited (node :: pending) < t.unvisited pending := by
  have same : (t.ids.filter fun id => !(node :: pending).contains id) =
      (t.ids.filter fun id => !pending.contains id).filter fun id => id ≠ node := by
    rw [List.filter_filter]
    refine List.filter_congr fun id _ => ?_
    simp [Bool.not_or]
  rw [unvisited, unvisited, same, List.length_filter_lt_length_iff_exists]
  exact ⟨node, List.mem_filter.2 ⟨mem_ids.2 has, by simpa using fresh⟩, by simp⟩

theorem unvisited_le (t : Tree) (pending : List NodeId) : t.unvisited pending ≤ t.size := by
  have := List.length_filter_le (fun id => !pending.contains id) t.ids
  simpa [unvisited, ids] using this

end Tree

namespace Correspondence

/-- Searches that give corresponding symbols. -/
def Searched (R : Correspondence) (x y : Search) (s t : Session) : Prop :=
  x.base = y.base ∧ R.Listed x.symbols y.symbols s t

end Correspondence

namespace Inference

/-- Questions about types are answered alike while some nodes are pending. -/
def TypesAgree (R : Correspondence) (c : Codebase) (pending : List NodeId) (k k' : Inference) :
    Prop :=
  ∀ ⦃s t node base⦄, R.related s t → s.pending = pending → c.tree.Has node →
    (∀ id, base = some id → c.tree.Has id) →
    Coupled R.coupling s t (k.typeOf node base) (k'.typeOf node base) R.Found

/-- Questions about symbols are answered alike while some nodes are pending. -/
def SymbolsAgree (R : Correspondence) (c : Codebase) (pending : List NodeId) (k k' : Inference) :
    Prop :=
  ∀ ⦃s t identifier⦄, R.related s t → s.pending = pending → c.tree.Has identifier →
    Coupled R.coupling s t (k.symbolsFor identifier) (k'.symbolsFor identifier) R.Searched

variable {c : Codebase} {R : Correspondence} {s t : Session} {k k' : Inference}

/-! ## Finding symbols -/

theorem coupled_parentScript (law : R.Lawful c) (rel : R.related s t) {script : Option SymbolId}
    (known : ∀ id, script = some id → ∃ symbol, c.symbols.get? id = some symbol) :
    Coupled R.coupling s t (parentScript c script) (parentScript c script)
      fun a b s t => R.Listed a.toList b.toList s t := by
  unfold parentScript
  cases script with
  | none => exact .pure rel .nil
  | some id =>
    obtain ⟨symbol, hs⟩ := known id rfl
    refine Correspondence.Lawful.ownSymbol hs (.pure rel ?_)
    cases he : (symbol.extendedScript).bind c.scripts.find? with
    | none => simp only [Option.bind_some, he]; exact .nil
    | some parent =>
      simp only [Option.bind_some, he]
      obtain ⟨name, -, hp⟩ := Option.bind_eq_some_iff.1 he
      obtain ⟨above, ha, -⟩ := law.codebase.scripts hp
      exact .cons (law.own rel (SymbolTable.owns_of_get? ha)) .nil

theorem coupled_typeSymbol (law : R.Lawful c) (rel : R.related s t) (name : String) :
    Coupled R.coupling s t (typeSymbol c name) (typeSymbol c name) R.Listed := by
  unfold typeSymbol
  refine .bind (law.resolveType rel name []) ?_
  intro a b s' t' _ _ rel' found
  cases found with
  | none => exact .pure rel' .nil
  | some hab =>
    refine law.typeInfo rel' hab.1 ?_
    intro x y _ _ alike
    refine .pure rel' ?_
    rw [alike.isArray]
    split
    · exact .nil
    · exact .cons alike.symbol .nil

/-- What a search leads to: the symbols with a name, or else a type. -/
theorem coupled_found (law : R.Lawful c) (rel : R.related s t) {x y : Search} (name : String)
    (h : R.Searched x y s t) :
    Coupled R.coupling s t
      (do
        let found ← Query.withName c name x.symbols
        if !found.isEmpty || x.base.isSome then return found
        typeSymbol c name)
      (do
        let found ← Query.withName c name y.symbols
        if !found.isEmpty || y.base.isSome then return found
        typeSymbol c name) R.Listed := by
  refine .bind (law.withName rel name h.2) ?_
  intro xs ys s' t' _ _ rel' hxy
  have same : ys.isEmpty = xs.isEmpty := by cases hxy <;> rfl
  rw [same, h.1]
  split
  · exact .pure rel' hxy
  · exact coupled_typeSymbol law rel' name

/-- What can be named at a node that is no member of anything. -/
theorem coupled_available_unbased (law : R.Lawful c) (rel : R.related s t) {node : NodeId}
    (has : c.tree.Has node) (unbased : c.tree.baseFor node = .ok none)
    (kinds : FlagSet MemberKind) (filter : Filter) :
    Coupled R.coupling s t (k.available c node kinds filter) (k'.available c node kinds filter)
      R.Searched := by
  unfold available
  refine .lift unbased (.bind (law.localSymbols rel has kinds filter) ?_)
  intro xs ys s' t' _ _ rel' h
  exact .pure rel' ⟨rfl, h⟩

/-- A name at a node leads to corresponding symbols if what can be named there does. -/
theorem coupled_matching_of_available (law : R.Lawful c) (rel : R.related s t) {node : NodeId}
    (has : c.tree.Has node) (name : String) (filter : Filter)
    (h : ∀ kinds, Coupled R.coupling s t (k.available c node kinds filter)
      (k'.available c node kinds filter) R.Searched) :
    Coupled R.coupling s t (k.matching c node name filter) (k'.matching c node name filter)
      R.Listed := by
  obtain ⟨script, around, isScript⟩ := Query.scriptAround_eq law.codebase.symbols has
  obtain ⟨kinds, hkinds⟩ := Tree.memberKindsAt_eq_ok has
  unfold matching
  refine .known (around s) (around t) ?_
  split
  · refine .pure rel ?_
    cases script with
    | none => exact .nil
    | some id =>
      obtain ⟨symbol, hs, -⟩ := isScript id rfl
      exact .cons (law.own rel (SymbolTable.owns_of_get? hs)) .nil
  split
  · refine .bind (coupled_parentScript law rel fun id hid =>
      (isScript id hid).imp fun _ h => h.1) ?_
    intro a b s' t' _ _ rel' h
    exact .pure rel' h
  · refine .lift hkinds (.bind (h kinds) ?_)
    intro x y s' t' _ _ rel' hxy
    exact coupled_found law rel' name hxy

theorem coupled_matching_unbased (law : R.Lawful c) (rel : R.related s t) {node : NodeId}
    (has : c.tree.Has node) (unbased : c.tree.baseFor node = .ok none) (name : String)
    (filter : Filter) :
    Coupled R.coupling s t (k.matching c node name filter) (k'.matching c node name filter)
      R.Listed :=
  coupled_matching_of_available law rel has name filter fun kinds =>
    coupled_available_unbased law rel has unbased kinds filter

/-- A symbol with a declaration that a type belongs to is declared by a script or struct. -/
theorem unbased_declaration (law : R.Lawful c) (rel : R.related s t) {type : TypeId}
    {info : TypeInfo} {symbol : Symbol} {declaration : NodeId}
    (hinfo : s.types.get? type = some info) (hs : s.symbol? c info.symbol = some symbol)
    (hd : symbol.declaration = some declaration) :
    c.tree.Has declaration ∧ c.tree.baseFor declaration = .ok none := by
  have sound := law.sound rel
  have owned : c.symbols.owns info.symbol := by
    by_contra foreign
    rw [Session.symbol?_synthetic s foreign] at hs
    rw [(sound.synthetic hs).1] at hd
    cases hd
  have fits := sound.infos hinfo
  rw [Session.symbol?_own s owned] at hs
  obtain ⟨node, identifier, hd', hk, -⟩ := (law.codebase.symbols.fits hs).declared
  rw [hd] at hd'
  cases hd'
  obtain ⟨n, hn⟩ := Tree.node?_of_declaration? hk
  refine ⟨Tree.has_of_node? hn, law.codebase.shielded.baseFor hn ?_⟩
  -- The types that belong to symbols of the codebase are those of scripts and structs.
  have kind : symbol.kind = .script ∨ symbol.kind = .struct := by
    cases hf : info.form with
    | intrinsic _ => exact absurd owned (fits.foreign (.inl (by simp [TypeInfo.isIntrinsic, hf])))
    | array _ => exact absurd owned (fits.foreign (.inr (by simp [TypeInfo.isArray, hf])))
    | script _ =>
      obtain ⟨other, ho, hkind, -⟩ := fits.script (by simp [TypeInfo.isScript, hf])
      rw [hs] at ho
      cases ho
      exact .inl hkind
    | struct _ =>
      obtain ⟨other, ho, hkind, -⟩ := fits.struct (by simp [TypeInfo.isStruct, hf])
      rw [hs] at ho
      cases ho
      exact .inr hkind
  rcases kind with kind | kind <;> rw [kind] at hk
  · exact .inl (Tree.isScript_of_declaration? hn hk)
  · exact .inr (Tree.isStruct_of_declaration? hn hk)

theorem coupled_membersNamed (law : R.Lawful c) (rel : R.related s t) {a b : TypeId}
    (hab : R.types s t a b) (name : String) :
    Coupled R.coupling s t (k.membersNamed c a name) (k'.membersNamed c b name) R.Listed := by
  unfold membersNamed
  refine law.typeInfo rel hab ?_
  intro x y hx _ alike
  refine law.symbol? rel alike.symbol ?_ ?_
  · exact .pure rel .nil
  intro symbol symbol' hs _ alike'
  dsimp only
  rw [alike'.kind, alike'.declaration]
  split
  · exact .pure rel .nil
  cases hd : symbol.declaration with
  | some declaration =>
    obtain ⟨has, unbased⟩ := unbased_declaration law rel hx hs hd
    exact coupled_matching_unbased law rel has unbased name _
  | none =>
    refine .bind (law.membersOf rel hab _ _) ?_
    intro xs ys s' t' _ _ rel' h
    exact law.withName rel' name h

/-- Finding symbols needs types, but no symbols. -/
theorem coupled_findSymbols (law : R.Lawful c) (rel : R.related s t) {pending : List NodeId}
    (types : TypesAgree R c pending k k') (hp : s.pending = pending) {identifier : NodeId}
    (has : c.tree.Has identifier) :
    Coupled R.coupling s t (k.findSymbols c identifier) (k'.findSymbols c identifier)
      R.Searched := by
  obtain ⟨name, hname⟩ := Tree.nameOf_eq_ok law.codebase.descending has
  obtain ⟨base, hbase, hasBase⟩ := Tree.baseFor_eq_ok law.codebase.descending has
  unfold findSymbols
  refine .lift hname (.lift hbase ?_)
  cases base with
  | none =>
    refine .bind (coupled_matching_unbased law rel has hbase _ _) ?_
    intro xs ys s' t' _ _ rel' h
    exact .pure rel' ⟨rfl, h⟩
  | some base =>
    refine .bind (types rel hp (hasBase base rfl) Tree.has_of_none) ?_
    intro a b s' t' _ _ rel' found
    cases found with
    | none => exact .pure rel' ⟨rfl, .nil⟩
    | some hab =>
      refine .bind (coupled_membersNamed law rel' hab _) ?_
      intro xs ys s'' t'' _ _ rel'' h
      exact .pure rel'' ⟨rfl, h⟩

theorem coupled_isStaticAccess (law : R.Lawful c) (rel : R.related s t) {pending : List NodeId}
    (symbols : SymbolsAgree R c pending k k') (hp : s.pending = pending) {node : NodeId}
    (has : c.tree.Has node) :
    Coupled R.coupling s t (k.isStaticAccess c node) (k'.isStaticAccess c node)
      fun x y _ _ => x = y := by
  obtain ⟨base, hbase, hasBase⟩ := Tree.baseFor_eq_ok law.codebase.descending has
  unfold isStaticAccess
  refine .lift hbase ?_
  cases base with
  | none => exact .pure rel rfl
  | some base =>
    obtain ⟨n, hn⟩ := (hasBase base rfl).node?
    refine .lift (Tree.form_eq_ok hn) ?_
    split
    · rename_i identifier hf
      have hid : c.tree.Has identifier :=
        law.codebase.descending.has hn (by simp [hf, Form.children])
      obtain ⟨name, hname⟩ := Tree.nameOf_eq_ok law.codebase.descending hid
      refine .lift hname (.bind (symbols rel hp hid) ?_)
      rintro ⟨_, xs⟩ ⟨_, ys⟩ s' t' - - rel' ⟨-, h⟩
      dsimp only at h ⊢
      cases h with
      | nil => exact .pure rel' rfl
      | cons head _ =>
        refine law.symbol? rel' head ?_ ?_
        · exact .pure rel' rfl
        · intro x y _ _ alike
          refine .pure rel' ?_
          simp only [Option.any_some, alike.kind, alike.name]
    · exact .pure rel rfl

theorem coupled_available (law : R.Lawful c) (rel : R.related s t) {pending : List NodeId}
    (types : TypesAgree R c pending k k') (symbols : SymbolsAgree R c pending k k')
    (hp : s.pending = pending) {node : NodeId} (has : c.tree.Has node)
    (kinds : FlagSet MemberKind) (filter : Filter) :
    Coupled R.coupling s t (k.available c node kinds filter) (k'.available c node kinds filter)
      R.Searched := by
  obtain ⟨base, hbase, hasBase⟩ := Tree.baseFor_eq_ok law.codebase.descending has
  cases base with
  | none => exact coupled_available_unbased law rel has hbase kinds filter
  | some base =>
    obtain ⟨kindsAt, hkinds⟩ := Tree.memberKindsAt_eq_ok has
    unfold available
    refine .lift hbase (.bind (coupled_isStaticAccess law rel symbols hp has) ?_)
    rintro isStatic _ s₁ t₁ gs - rel₁ rfl
    refine .bind (types rel₁ (gs.pending.trans hp) (hasBase base rfl) Tree.has_of_none) ?_
    intro a b s₂ t₂ _ _ rel₂ found
    cases found with
    | none => exact .pure rel₂ ⟨rfl, .nil⟩
    | some hab =>
      refine law.typeInfo rel₂ hab ?_
      intro x y _ _ alike
      rw [alike.isIntrinsic]
      split
      · exact .pure rel₂ ⟨rfl, .nil⟩
      · refine .lift hkinds (.bind (law.membersOf rel₂ hab _ _) ?_)
        intro xs ys s₃ t₃ _ _ rel₃ h
        exact .pure rel₃ ⟨rfl, h⟩

theorem coupled_matching (law : R.Lawful c) (rel : R.related s t) {pending : List NodeId}
    (types : TypesAgree R c pending k k') (symbols : SymbolsAgree R c pending k k')
    (hp : s.pending = pending) {node : NodeId} (has : c.tree.Has node) (name : String)
    (filter : Filter) :
    Coupled R.coupling s t (k.matching c node name filter) (k'.matching c node name filter)
      R.Listed :=
  coupled_matching_of_available law rel has name filter fun kinds =>
    coupled_available law rel types symbols hp has kinds filter

/-! ## Finding types -/

/-- The symbols of the codebase are declared in the tree, and the session makes no structs. -/
theorem declaration_cases (law : R.Lawful c) (rel : R.related s t) {id : SymbolId}
    {symbol : Symbol} (hs : s.symbol? c id = some symbol) :
    (∃ node, symbol.declaration = some node ∧ c.tree.Has node) ∨
      symbol.declaration = none ∧ symbol.kind ≠ .struct := by
  by_cases owned : c.symbols.owns id
  · rw [Session.symbol?_own s owned] at hs
    obtain ⟨node, identifier, hd, hk, -⟩ := (law.codebase.symbols.fits hs).declared
    obtain ⟨n, hn⟩ := Tree.node?_of_declaration? hk
    exact .inl ⟨node, hd, Tree.has_of_node? hn⟩
  · rw [Session.symbol?_synthetic s owned] at hs
    obtain ⟨bare, kind, -⟩ := (law.sound rel).synthetic hs
    exact .inr ⟨bare, kind⟩

theorem coupled_declaredType (law : R.Lawful c) (rel : R.related s t) {pending : List NodeId}
    (types : TypesAgree R c pending k k') (hp : s.pending = pending) {a b : SymbolId}
    (hab : R.symbols s t a b) :
    Coupled R.coupling s t (k.declaredType c a) (k'.declaredType c b) R.Found := by
  unfold declaredType
  refine law.symbol? rel hab ?_ ?_
  · exact .pure rel .none
  intro x y hx _ alike
  dsimp only
  rw [alike.declaration, alike.kind, alike.valueType]
  rcases declaration_cases law rel hx with ⟨node, hd, has⟩ | ⟨hd, hkind⟩
  · rw [hd]
    exact types rel hp has Tree.has_of_none
  · rw [hd]
    have ofSymbol : Coupled R.coupling s t (Query.typeOfSymbol c a) (Query.typeOfSymbol c b)
        R.Found := by
      refine law.typeOfSymbol rel hab ?_
      intro other ho
      rw [hx] at ho
      cases ho
      exact hkind
    dsimp only
    split
    · exact ofSymbol
    · exact ofSymbol
    · exact ofSymbol
    · exact .pure rel (.some (law.intrinsic rel .void))
    · exact law.typeOfReference rel _
    · exact .pure rel .none

theorem coupled_firstDeclared (law : R.Lawful c) (rel : R.related s t) {xs ys : List SymbolId}
    (h : R.Listed xs ys s t) :
    Coupled R.coupling s t (firstDeclared c xs) (firstDeclared c ys)
      fun a b s t => Option.Rel (R.symbols s t) a b := by
  have chosen : List.Forall₂ (R.Entry s t) (s.select c xs (·.kind ≠ .intrinsic))
      (t.select c ys (·.kind ≠ .intrinsic)) :=
    law.select rel h fun alike => by rw [alike.kind]
  refine .get (.pure rel ?_)
  generalize s.select c xs (·.kind ≠ .intrinsic) = xs at chosen ⊢
  generalize t.select c ys (·.kind ≠ .intrinsic) = ys at chosen ⊢
  cases chosen with
  | nil => exact .none
  | cons head _ => exact .some head.1

/-- The type of the first of some symbols that is declared. -/
def firstType (k : Inference) (c : Codebase) (ids : List SymbolId) : Query (Option TypeId) := do
  let some symbol ← firstDeclared c ids | return none
  k.declaredType c symbol

theorem coupled_firstType (law : R.Lawful c) (rel : R.related s t) {pending : List NodeId}
    (types : TypesAgree R c pending k k') (hp : s.pending = pending) {xs ys : List SymbolId}
    (h : R.Listed xs ys s t) :
    Coupled R.coupling s t (k.firstType c xs) (k'.firstType c ys) R.Found := by
  unfold firstType
  refine .bind (coupled_firstDeclared law rel h) ?_
  intro a b s' t' gs _ rel' found
  cases found with
  | none => exact .pure rel' .none
  | some hab => exact coupled_declaredType law rel' types (gs.pending.trans hp) hab

theorem coupled_referenceType (law : R.Lawful c) (rel : R.related s t) {pending : List NodeId}
    (types : TypesAgree R c pending k k') (symbols : SymbolsAgree R c pending k k')
    (hp : s.pending = pending) {identifier : NodeId} (has : c.tree.Has identifier)
    {base : Option NodeId} (hasBase : ∀ id, base = some id → c.tree.Has id) :
    Coupled R.coupling s t (k.referenceType c identifier base) (k'.referenceType c identifier base)
      R.Found := by
  obtain ⟨name, hname⟩ := Tree.nameOf_eq_ok law.codebase.descending has
  unfold referenceType
  refine .lift hname ?_
  cases name with
  | none => exact .pure rel .none
  | some name =>
    cases base with
    | none =>
      refine .bind (coupled_matching law rel types symbols hp has name _) ?_
      intro xs ys s' t' gs _ rel' h
      exact coupled_firstType law rel' types (gs.pending.trans hp) h
    | some base =>
      refine .bind (types rel hp (hasBase base rfl) Tree.has_of_none) ?_
      intro a b s' t' gs _ rel' found
      cases found with
      | none => exact .pure rel' .none
      | some hab =>
        refine law.typeInfo rel' hab ?_
        intro x y _ _ alike
        rw [alike.isIntrinsic]
        dsimp only
        split
        · exact .pure rel' .none
        · refine .bind (coupled_membersNamed law rel' hab name) ?_
          intro xs ys s'' t'' gs' _ rel'' h
          exact coupled_firstType law rel'' types (gs'.pending.trans (gs.pending.trans hp)) h

theorem isVar_eq_ok (law : R.Lawful c) {typeName : NodeId} (has : c.tree.Has typeName) :
    ∃ answer, isVar c typeName = .ok answer := by
  obtain ⟨n, hn⟩ := has.node?
  obtain ⟨name, hname⟩ := Tree.nameOf_eq_ok law.codebase.descending has
  rw [isVar, Tree.form_eq_ok hn, hname]
  simp only [bind, Except.bind, pure, Except.pure]
  split <;> exact ⟨_, rfl⟩

/-- Comparing what was found with an intrinsic type. -/
theorem found_eq_intrinsic (law : R.Lawful c) (rel : R.related s t) {a b : Option TypeId}
    (h : R.Found a b s t) (kind : Intrinsic) : b = some kind.typeId ↔ a = some kind.typeId := by
  cases h with
  | none => simp
  | some hab => simp only [Option.some.injEq, law.eq_intrinsic rel hab kind]

/-- An arithmetic operation looks at its operands' types as far as they are intrinsic. -/
theorem arithmeticType_eq (law : R.Lawful c) (rel : R.related s t) {a b a' b' : Option TypeId}
    (h : R.Found a b s t) (h' : R.Found a' b' s t) (operator : BinaryOperator) :
    ∃ kind : Intrinsic, arithmeticType operator a a' = kind.typeId ∧
      arithmeticType operator b b' = kind.typeId := by
  simp only [arithmeticType, found_eq_intrinsic law rel h, found_eq_intrinsic law rel h']
  split
  · exact ⟨.string, rfl, rfl⟩
  split
  · exact ⟨.float, rfl, rfl⟩
  · exact ⟨.int, rfl, rfl⟩

/-- The type of a node from the types of its parts. -/
theorem coupled_formType (law : R.Lawful c) (rel : R.related s t) {pending : List NodeId}
    (types : TypesAgree R c pending k k') (symbols : SymbolsAgree R c pending k k')
    (hp : s.pending = pending) {node : NodeId} (has : c.tree.Has node)
    {base : Option NodeId} (hasBase : ∀ id, base = some id → c.tree.Has id) :
    Coupled R.coupling s t (k.formType c node base) (k'.formType c node base) R.Found := by
  obtain ⟨n, hn⟩ := has.node?
  have part : ∀ {child form}, n.form = form → child ∈ form.children → c.tree.Has child :=
    fun hf hc => law.codebase.descending.has hn (hf ▸ hc)
  have known (kind : Intrinsic) : R.Found (some kind.typeId) (some kind.typeId) s t :=
    .some (law.intrinsic rel kind)
  unfold formType
  refine .lift (Tree.form_eq_ok hn) ?_
  cases hf : n.form with
  | script header imports definitions =>
    dsimp only
    cases hs : c.symbols.symbolOf node with
    | none => exact .pure rel .none
    | some id =>
      obtain ⟨symbol, hsymbol, hkind⟩ :=
        law.codebase.symbols.symbolOf_script hn (by simp [hf, Form.isScript]) hs
      have owned := SymbolTable.owns_of_get? hsymbol
      refine law.typeOfSymbol rel (law.own rel owned) ?_
      intro other ho
      rw [Session.symbol?_own s owned, hsymbol] at ho
      cases ho
      simp [hkind]
  | function header statements =>
    obtain ⟨h, hh⟩ := (part hf (by simp [Form.children]) : c.tree.Has header).node?
    refine .lift (Tree.form_eq_ok hh) ?_
    split
    · rename_i returnType _ _ _ hg
      exact law.typeOfTypeName rel
        (law.codebase.descending.has hh (by simp [hg, Form.children]))
    · exact .pure rel (known .void)
  | variableDefinition typeName _ _ _ | parameter typeName _ _ _ | newStruct typeName
  | newArray typeName _ =>
    exact law.typeOfTypeName rel (part hf (by simp [Form.children]))
  | property typeName _ _ _ _ => exact law.typeOfTypeName rel (part hf (by simp [Form.children]))
  | cast _ typeName => exact law.typeOfTypeName rel (part hf (by simp [Form.children]))
  | declaration typeName identifier initial =>
    have hasType : c.tree.Has typeName := part hf (by simp [Form.children])
    obtain ⟨answer, hanswer⟩ := isVar_eq_ok law hasType
    refine .lift hanswer ?_
    split
    · cases initial with
      | none => exact .pure rel .none
      | some initial => exact types rel hp (part hf (by simp [Form.children])) Tree.has_of_none
    · exact law.typeOfTypeName rel hasType
  | reference identifier | call identifier _ =>
    exact coupled_referenceType law rel types symbols hp (part hf (by simp [Form.children])) hasBase
  | memberAccess base access =>
    refine types rel hp (part hf (by simp [Form.children])) ?_
    rintro id ⟨⟩
    exact part hf (by simp [Form.children])
  | index base position =>
    refine .bind (types rel hp (part hf (by simp [Form.children])) Tree.has_of_none) ?_
    intro a b s' t' _ _ rel' found
    cases found with
    | none => exact .pure rel' .none
    | some hab => exact law.elementType rel' hab
  | argument _ value => exact types rel hp (part hf (by simp [Form.children])) Tree.has_of_none
  | literalExpression value =>
    exact types rel hp (part hf (by simp [Form.children])) Tree.has_of_none
  | literal value => exact .pure rel (known _)
  | typeTest _ _ => exact .pure rel (known .bool)
  | unary operator inner =>
    cases operator with
    | not => exact .pure rel (known .bool)
    | negate => exact types rel hp (part hf (by simp [Form.children])) Tree.has_of_none
  | binary left operator right =>
    dsimp only
    split
    · exact .pure rel (known .bool)
    · refine .bind (types rel hp (part hf (by simp [Form.children])) Tree.has_of_none) ?_
      intro a b s₁ t₁ gs _ rel₁ found
      refine .bind (types rel₁ (gs.pending.trans hp) (part hf (by simp [Form.children]))
        Tree.has_of_none) ?_
      intro a' b' s₂ t₂ gs' gt' rel₂ found'
      have earlier : R.Found a b s₂ t₂ :=
        found.imp fun _ _ hab => law.types_mono hab gs'.grown gt'.grown
      obtain ⟨kind, left, right⟩ := arithmeticType_eq law rel₂ earlier found' operator
      refine .pure rel₂ ?_
      rw [left, right]
      exact .some (law.intrinsic rel₂ kind)
  | _ => exact .pure rel .none

/-- Working out the type of a node, step by step. -/
theorem findType_eq (k : Inference) (node : NodeId) (base : Option NodeId) (s : Session) :
    k.findType c node base s =
      if s.pending.contains node then .ok (none, s)
      else k.formType c node base { s with pending := node :: s.pending } >>= fun r =>
        .ok (r.1, { r.2 with pending := r.2.pending.erase node }) := by
  unfold findType
  rw [bind_ok (show (get : Query Session) s = .ok (s, s) from rfl)]
  dsimp only
  split <;> rfl

/-- A node is pending while its type is worked out, and as it was before when that is done. -/
theorem coupled_findType (law : R.Lawful c) (rel : R.related s t) {node : NodeId}
    {base : Option NodeId} (has : c.tree.Has node) (hasBase : ∀ id, base = some id → c.tree.Has id)
    (h : node ∉ s.pending → TypesAgree R c (node :: s.pending) k k' ∧
      SymbolsAgree R c (node :: s.pending) k k') :
    Coupled R.coupling s t (k.findType c node base) (k'.findType c node base) R.Found := by
  have left := findType_eq (c := c) k node base s
  have right := findType_eq (c := c) k' node base t
  have same : s.pending = t.pending := law.pending rel
  rw [← same] at right
  by_cases visited : s.pending.contains node = true
  · rw [if_pos visited] at left right
    exact .done left right (.refl s) (.refl t) rel .none
  · rw [if_neg visited] at left right
    obtain ⟨types, symbols⟩ := h (by simpa using visited)
    cases coupled_formType law (law.withPending rel (node :: s.pending)) types symbols rfl has
      hasBase with
    | @done a b s' t' left' right' gs gt rel' found =>
      rw [left'] at left
      rw [right'] at right
      have ps : s'.pending.erase node = s.pending := by rw [gs.pending]; simp
      have pt : t'.pending.erase node = s.pending := by rw [gt.pending]; simp
      simp only [bind, Except.bind, ps, pt] at left right
      refine .done left right ⟨⟨gs.grown.types, gs.grown.synthetic⟩, rfl⟩
        ⟨⟨gt.grown.types, gt.grown.synthetic⟩, same⟩ (law.withPending rel' _) ?_
      exact found.imp fun _ _ hab => law.types_mono hab ⟨id, id⟩ ⟨id, id⟩
    | fault left' right' tolerated =>
      exact .fault (left.trans (by rw [left']; rfl)) (right.trans (by rw [right']; rfl)) tolerated
    | exhausted right' tolerated =>
      exact .exhausted (right.trans (by rw [right']; rfl)) tolerated

/-! ## Enough questions inside each other -/

theorem symbolsAgree_succ (law : R.Lawful c) {pending : List NodeId} {depth depth' : Nat}
    (types : TypesAgree R c pending (atDepth c depth) (atDepth c depth')) :
    SymbolsAgree R c pending (atDepth c (depth + 1)) (atDepth c (depth' + 1)) := by
  intro s t identifier rel hp has
  exact coupled_findSymbols law rel types hp has

/-- Questions about types are answered alike with any depth that the nodes that are not pending
allow for, since each such question makes another node pending. -/
theorem typesAgree_atDepth (law : R.Lawful c) {pending : List NodeId} {depth depth' : Nat}
    (enough : 2 * c.tree.unvisited pending + 1 ≤ depth)
    (enough' : 2 * c.tree.unvisited pending + 1 ≤ depth') :
    TypesAgree R c pending (atDepth c depth) (atDepth c depth') := by
  induction hn : c.tree.unvisited pending using Nat.strongRecOn
    generalizing pending depth depth' with
  | ind n ih =>
  subst hn
  obtain ⟨d, rfl⟩ : ∃ d, depth = d + 1 := ⟨depth - 1, by omega⟩
  obtain ⟨d', rfl⟩ : ∃ d', depth' = d' + 1 := ⟨depth' - 1, by omega⟩
  intro s t node base rel hp has hasBase
  refine coupled_findType law rel has hasBase fun fresh => ?_
  rw [hp] at fresh ⊢
  have less := Tree.unvisited_cons_lt has fresh
  refine ⟨ih _ less (by omega) (by omega) rfl, ?_⟩
  obtain ⟨e, rfl⟩ : ∃ e, d = e + 1 := ⟨d - 1, by omega⟩
  obtain ⟨e', rfl⟩ : ∃ e', d' = e' + 1 := ⟨d' - 1, by omega⟩
  exact symbolsAgree_succ law (ih _ less (by omega) (by omega) rfl)

theorem symbolsAgree_atDepth (law : R.Lawful c) {pending : List NodeId} {depth depth' : Nat}
    (enough : 2 * c.tree.unvisited pending + 2 ≤ depth)
    (enough' : 2 * c.tree.unvisited pending + 2 ≤ depth') :
    SymbolsAgree R c pending (atDepth c depth) (atDepth c depth') := by
  obtain ⟨d, rfl⟩ : ∃ d, depth = d + 1 := ⟨depth - 1, by omega⟩
  obtain ⟨d', rfl⟩ : ∃ d', depth' = d' + 1 := ⟨depth' - 1, by omega⟩
  exact symbolsAgree_succ law (typesAgree_atDepth law (by omega) (by omega))

/-- The depth at which the questions about a codebase are answered is enough for all of them. -/
theorem le_questionDepth (c : Codebase) (pending : List NodeId) :
    2 * c.tree.unvisited pending + 2 ≤ c.questionDepth := by
  have := c.tree.unvisited_le pending
  have : (c.tree.size + 2) * 2 ≤ (c.tree.size + 2) * (c.tree.size + 2) :=
    Nat.mul_le_mul_left _ (by omega)
  rw [Codebase.questionDepth]
  omega

end Inference

namespace Correspondence.Lawful

variable {c : Codebase} {R : Correspondence} {s t : Session} {node : NodeId}

/-- The type of an expression or declaration. -/
theorem typeOf (law : R.Lawful c) (rel : R.related s t) (has : c.tree.Has node) :
    Coupled R.coupling s t (Query.typeOf c node) (Query.typeOf c node) R.Found := by
  have enough := Inference.le_questionDepth c s.pending
  exact Inference.typesAgree_atDepth law (by omega) (by omega) rel rfl has Tree.has_of_none

/-- The symbols that an identifier can refer to. -/
theorem symbolsFor (law : R.Lawful c) (rel : R.related s t) (has : c.tree.Has node) :
    Coupled R.coupling s t (Query.symbolsFor c node) (Query.symbolsFor c node) R.Searched := by
  have enough := Inference.le_questionDepth c s.pending
  exact Inference.symbolsAgree_atDepth law enough enough rel rfl has

/-- The type that a symbol was declared with. -/
theorem declaredType (law : R.Lawful c) (rel : R.related s t) {a b : SymbolId}
    (hab : R.symbols s t a b) :
    Coupled R.coupling s t (Query.declaredType c a) (Query.declaredType c b) R.Found := by
  have enough := Inference.le_questionDepth c s.pending
  exact Inference.coupled_declaredType law rel
    (Inference.typesAgree_atDepth law (by omega) (by omega)) rfl hab

end Correspondence.Lawful

end PapyrusAnalysis
