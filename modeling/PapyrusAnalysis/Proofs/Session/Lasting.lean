import PapyrusAnalysis.Proofs.Binding.Places
import PapyrusAnalysis.Proofs.Session.Naming

/-!
# Searches that last

If scripts stand apart, then what a name at a node leads to stays the same from the time on that it
was first looked for, and looking for it again makes nothing. For this it matters that every symbol
on the way is known: what is unknown now may be an array later.

What is found is known in turn. It belongs to a type or is a member of one, or it is among the names
that a container around the node keeps.

## Main definitions

* `Session.Offers`: a symbol is known and no statement of a body declares it.
* `Session.Surrounds`: a symbol is offered, or kept by a container around a node.
-/

namespace PapyrusAnalysis

theorem dropShadowed_sublist (seen : List String) (members : List (SymbolId × Symbol)) :
    (dropShadowed seen members).Sublist members := by
  induction members generalizing seen with
  | nil => exact .slnil
  | cons member rest ih =>
    rw [dropShadowed]
    split
    · exact (ih seen).cons member
    · exact (ih _).cons_cons member

namespace Codebase

variable {c : Codebase}

/-- What a declaration is called may be nothing, but a symbol always has a name. -/
theorem Firm.named (firm : c.Firm) {id : SymbolId} {symbol : Symbol}
    (hs : c.symbols.get? id = some symbol) : symbol.name ≠ "" := by
  obtain ⟨node, identifier, -, -, name⟩ := (firm.symbols.fits hs).declared
  rw [name, Binding.title]
  split
  · exact (by decide : Binding.unnamed ≠ "")
  · rename_i titled
    intro blank
    rw [blank] at titled
    exact titled rfl

theorem Firm.find?_empty (firm : c.Firm) : c.scripts.find? "" = none := by
  rw [Option.eq_none_iff_forall_ne_some]
  intro id found
  obtain ⟨symbol, hs, -, same⟩ := firm.scripts found
  have blank := Text.isEmpty_lowercase symbol.name
  rw [same] at blank
  exact firm.named hs (String.isEmpty_iff.1 blank.symm)

/-- A codebase whose tree is well-formed, with scripts on top, whose symbols all come from its tree
and in which scripts stand apart. -/
structure Orderly (c : Codebase) : Prop extends c.Firm where
  wellFormed : c.tree.WellFormed
  top : c.tree.ScriptsOnTop
  shielded : c.tree.Shielded
  placed : Binding.Placed c.tree c.symbols

theorem Bound.orderly (bound : c.Bound) (wf : c.tree.WellFormed) (top : c.tree.ScriptsOnTop)
    (shielded : c.tree.Shielded) (apart : c.ScriptsApart) : c.Orderly where
  toFirm := bound.firm apart
  wellFormed := wf
  top := top
  shielded := shielded
  placed := (bound.symbols wf.grown wf.descending).2.1

end Codebase

namespace Session

variable {c : Codebase} {s t : Session} {id : SymbolId} {symbol : Symbol}

/-- A symbol is known and no statement of a body declares it. -/
def Offers (c : Codebase) (s : Session) (id : SymbolId) : Prop :=
  ∃ symbol, s.symbol? c id = some symbol ∧ ∀ node, symbol.declaration = some node →
    c.tree.isWanted Binding.isDeclaration node = false

theorem Offers.extends (h : s.Offers c id) (e : s.Extends t) : t.Offers c id := by
  obtain ⟨symbol, hs, bare⟩ := h
  exact ⟨symbol, e.symbol? hs, bare⟩

theorem Offers.knows (h : s.Offers c id) : s.Knows c id := by
  obtain ⟨symbol, hs, -⟩ := h
  exact ⟨symbol, hs⟩

theorem offers_of_canBeMember (s : Session) (h : Binding.CanBeMember c.tree c.symbols id) :
    s.Offers c id := by
  obtain ⟨symbol, node, hs, hd, bare⟩ := h
  refine ⟨symbol, (symbol?_own s (SymbolTable.owns_of_get? hs)).trans hs, fun node' hd' => ?_⟩
  cases hd.symm.trans hd'
  exact bare

theorem Founded.owns_of_declaration (h : s.Founded c) {node : NodeId}
    (hs : s.symbol? c id = some symbol) (hd : symbol.declaration = some node) :
    c.symbols.get? id = some symbol := by
  by_cases owned : c.symbols.owns id
  · exact (symbol?_own s owned).symm.trans hs
  · rw [symbol?_synthetic s owned] at hs
    rw [(h.synthetic hs).1] at hd
    cases hd

/-- The members of a symbol are offered. -/
theorem Founded.offers_member (h : s.Founded c) (firm : c.Firm) (hs : s.symbol? c id = some symbol)
    {member : SymbolId} (hm : member ∈ symbol.members) : s.Offers c member := by
  by_cases owned : c.symbols.owns id
  · rw [symbol?_own s owned] at hs
    exact offers_of_canBeMember s ((firm.symbols.fits hs).members member hm)
  · rw [symbol?_synthetic s owned] at hs
    obtain ⟨foreign, found, hf⟩ := h.members hs hm
    refine ⟨found, hf, fun node hd => absurd ?_ foreign⟩
    exact SymbolTable.owns_of_get? (h.owns_of_declaration hf hd)

/-- The symbol of a script or struct is offered. -/
theorem offers_of_namesType (firm : c.Firm) (s : Session) (hs : c.symbols.get? id = some symbol)
    (names : Codebase.namesType symbol) : s.Offers c id := by
  refine ⟨symbol, (symbol?_own s (SymbolTable.owns_of_get? hs)).trans hs, fun node hd => ?_⟩
  obtain ⟨node', identifier, hd', hk, -⟩ := (firm.symbols.fits hs).declared
  cases hd.symm.trans hd'
  obtain ⟨n, hn⟩ := Tree.node?_of_declaration? hk
  rw [Binding.isWanted_of_formAt (Tree.formAt_eq hn)]
  simp only [Codebase.namesType, Bool.or_eq_true, decide_eq_true_eq] at names
  rcases names with kind | kind <;> rw [kind] at hk
  · have script := Tree.isScript_of_declaration? hn hk
    cases hf : n.form <;> simp_all [Form.isScript, Binding.isDeclaration]
  · have struct := Tree.isStruct_of_declaration? hn hk
    cases hf : n.form <;> simp_all [Form.isStruct, Binding.isDeclaration]

/-- The symbol that a type belongs to is offered. -/
theorem Founded.offers_info (h : s.Founded c) (firm : c.Firm) {type : TypeId} {info : TypeInfo}
    (hi : s.types.get? type = some info) : s.Offers c info.symbol := by
  obtain ⟨symbol, hs, -, names⟩ := h.types hi
  cases hd : symbol.declaration with
  | none => exact ⟨symbol, hs, fun node hd' => by rw [hd] at hd'; cases hd'⟩
  | some node =>
    exact offers_of_namesType firm s (h.owns_of_declaration hs hd) (names node hd)

/-- A symbol is offered, or a container around a node keeps its name. -/
def Surrounds (c : Codebase) (node : NodeId) (s : Session) (id : SymbolId) : Prop :=
  s.Offers c id ∨ ∃ container, c.tree.Within node container ∧
    id ∈ (c.symbols.names .locals container).values

theorem Surrounds.extends {node : NodeId} (h : s.Surrounds c node id) (e : s.Extends t) :
    t.Surrounds c node id :=
  h.imp_left (·.extends e)

theorem Surrounds.knows {node : NodeId} (h : s.Surrounds c node id) (firm : c.Firm) :
    s.Knows c id := by
  rcases h with h | ⟨container, -, kept⟩
  · exact h.knows
  · exact knows_of_owns s (firm.symbols.names kept).owns

/-- What is selected among known symbols stays the same. -/
theorem select_retains {ids : List SymbolId} (known : ∀ id ∈ ids, s.Knows c id)
    (retains : s.Retains c t) (wanted : Symbol → Bool) :
    t.select c ids wanted = s.select c ids wanted := by
  refine List.filterMap_congr fun id hid => ?_
  obtain ⟨symbol, hs⟩ := known id hid
  rw [hs, retains.grown.symbol? hs]

/-- A known symbol has a name. -/
theorem Founded.named (founded : s.Founded c) (firm : c.Firm)
    (hs : s.symbol? c id = some symbol) : symbol.name ≠ "" := by
  by_cases owned : c.symbols.owns id
  · exact firm.named ((symbol?_own s owned).symm.trans hs)
  · rw [symbol?_synthetic s owned] at hs
    exact founded.titled hs

/-- What is known of the declaration of the symbol that a type belongs to. -/
structure TypeDeclared (c : Codebase) (node : NodeId) : Prop where
  has : c.tree.Has node
  /-- It is a member of nothing. -/
  unbased : c.tree.baseFor node = .ok none
  /-- What is around it is offered. -/
  offers : ∀ {s : Session} {id}, s.Surrounds c node id → s.Offers c id

/-- A type whose symbol has a declaration is that of a script or struct. -/
theorem Founded.declared_type (h : s.Founded c) (orderly : c.Orderly) {type : TypeId}
    {info : TypeInfo} {node : NodeId} (hi : s.types.get? type = some info)
    (hs : s.symbol? c info.symbol = some symbol) (hd : symbol.declaration = some node) :
    TypeDeclared c node := by
  have known := h.owns_of_declaration hs hd
  obtain ⟨other, ho, -, names⟩ := h.types hi
  cases hs.symm.trans ho
  have kind : symbol.kind = .script ∨ symbol.kind = .struct := by
    simpa [Codebase.namesType] using names node hd
  obtain ⟨node', identifier, hd', hk, -⟩ := (orderly.symbols.fits known).declared
  cases hd.symm.trans hd'
  obtain ⟨n, hn⟩ := Tree.node?_of_declaration? hk
  refine ⟨Tree.has_of_node? hn, orderly.shielded.baseFor hn ?_, ?_⟩
  · rcases kind with kind | kind <;> rw [kind] at hk
    · exact .inl (Tree.isScript_of_declaration? hn hk)
    · exact .inr (Tree.isStruct_of_declaration? hn hk)
  · rintro t id (offered | ⟨container, around, kept⟩)
    · exact offered
    · exact offers_of_canBeMember t (Binding.canBeMember_of_kept orderly.wellFormed orderly.top
        orderly.symbols orderly.placed known hd kind around kept)

end Session

namespace Query

variable {c : Codebase} {s : Session}

/-- Every symbol of a list is offered. -/
def Offering (c : Codebase) (ids : List SymbolId) (s : Session) : Prop :=
  ∀ id ∈ ids, s.Offers c id

/-! ## Members -/

theorem Lasts.throw {α : Type} {post : α → Session → Prop} (e : Fault) :
    Lasts c s (MonadExcept.throw e : Query α) post := by
  rintro a t ⟨⟩

theorem lasts_hierarchyFrom (firm : c.Firm) (founded : s.Founded c) (fuel : Nat)
    (seen : List TypeId) (type : TypeId) :
    Lasts c s (hierarchyFrom c fuel seen type) fun _ _ => True := by
  induction fuel generalizing s seen type with
  | zero => exact .throw _
  | succ fuel ih =>
    unfold hierarchyFrom
    split
    · exact .pure founded trivial
    refine .bind (lasts_typeInfo founded type) fun info s₁ _ founded₁ hi => ?_
    refine .bind (lasts_symbol? founded₁ (founded₁.offers_info firm hi).knows) ?_
    intro symbol s₂ _ founded₂ _
    split
    · refine .bind (lasts_resolveFullName firm founded₂ _) fun next s₃ _ founded₃ _ => ?_
      split
      · refine .bind (lasts_typeInfo founded₃ _) fun info s₄ _ founded₄ _ => ?_
        split
        · exact .bind (ih founded₄ _ _) fun rest s₅ _ founded₅ _ => .pure founded₅ trivial
        · exact .pure founded₄ trivial
      · exact .pure founded₃ trivial
    · exact .pure founded₂ trivial

theorem lasts_ownMembers (firm : c.Firm) (founded : s.Founded c) (type : TypeId)
    (wanted : Symbol → Bool) :
    Lasts c s (ownMembers c type wanted) fun members t => Offering c (members.map (·.1)) t := by
  refine .bind (lasts_typeInfo founded type) fun info s₁ _ founded₁ hi => ?_
  refine .bind (lasts_symbol? founded₁ (founded₁.offers_info firm hi).knows) ?_
  intro found s₂ _ founded₂ hs
  cases found with
  | none => exact .pure founded₂ (by simp [Offering])
  | some symbol =>
    have offered : Offering c symbol.members s₂ := fun member hm =>
      founded₂.offers_member firm hs hm
    refine .read (fun u retains => ?_) (.pure founded₂ ?_)
    · exact congrArg (List.map _)
        (Session.select_retains (fun id hid => (offered id hid).knows) retains wanted)
    · rw [founded₂.selectNumbered_eq firm]
      intro id hid
      obtain ⟨entry, hentry, rfl⟩ := List.mem_map.1 hid
      exact offered entry.1 (Session.mem_select.1 hentry).1

theorem lasts_inheritedMembers (firm : c.Firm) (founded : s.Founded c) (type : TypeId)
    (filter : Filter) (wanted : Symbol → Bool) :
    Lasts c s (inheritedMembers c type filter wanted) fun members t =>
      Offering c (members.map (·.1)) t := by
  refine .bind (lasts_typeInfo founded type) fun info s₁ _ founded₁ _ => ?_
  split
  · exact lasts_ownMembers firm founded₁ type wanted
  refine .bind (lasts_hierarchyFrom firm founded₁ _ [] type) fun hierarchy s₂ _ founded₂ _ => ?_
  refine .bind (.mapM founded₂ ?_ fun type _ s₃ _ founded₃ =>
    lasts_ownMembers firm founded₃ type wanted) ?_
  · exact fun retains offered id hid => (offered id hid).extends retains.grown
  intro members s₃ _ founded₃ offered
  have all : Offering c (members.flatten.map (·.1)) s₃ := by
    intro id hid
    obtain ⟨entry, hentry, rfl⟩ := List.mem_map.1 hid
    obtain ⟨part, hpart, inside⟩ := List.mem_flatten.1 hentry
    exact offered part hpart entry.1 (List.mem_map_of_mem inside)
  refine .pure founded₃ ?_
  split
  · intro id hid
    obtain ⟨entry, hentry, rfl⟩ := List.mem_map.1 hid
    exact all entry.1 (List.mem_map_of_mem ((dropShadowed_sublist _ _).subset hentry))
  · exact all

theorem lasts_groupMembers (firm : c.Firm) (founded : s.Founded c) (type : TypeId)
    (filter : Filter) (group : MemberGroup) :
    Lasts c s (groupMembers c type filter group) (Offering c) := by
  unfold groupMembers
  dsimp only
  split
  · exact .bind (lasts_inheritedMembers firm founded type filter _)
      fun members t _ founded' offered => .pure founded' offered
  · exact .bind (lasts_ownMembers firm founded type _)
      fun members t _ founded' offered => .pure founded' offered

/-- The members of a type. -/
theorem lasts_membersOf (firm : c.Firm) (founded : s.Founded c) (type : TypeId)
    (kinds : FlagSet MemberKind) (filter : Filter) :
    Lasts c s (membersOf c type kinds filter) (Offering c) := by
  refine .bind (lasts_typeInfo founded type) fun info s₁ _ founded₁ _ => ?_
  refine .bind (.mapM founded₁ ?_ fun group _ s₂ _ founded₂ =>
    lasts_groupMembers firm founded₂ type filter group) ?_
  · exact fun retains offered id hid => (offered id hid).extends retains.grown
  intro members s₂ _ founded₂ offered
  refine .pure founded₂ fun id hid => ?_
  obtain ⟨part, hpart, inside⟩ := List.mem_flatten.1 hid
  exact offered part hpart id inside

/-! ## Scopes -/

theorem lasts_importedMembers (firm : c.Firm) (founded : s.Founded c) (kinds : FlagSet MemberKind)
    (names : List String) : Lasts c s (importedMembers c kinds names) (Offering c) := by
  induction names generalizing s with
  | nil => exact .pure founded (by simp [Offering])
  | cons name rest ih =>
    have append {s : Session} {members : List SymbolId} (founded : s.Founded c)
        (offered : Offering c members s) :
        Lasts c s (importedMembers c kinds rest >>= fun more => pure (members ++ more))
          (Offering c) := by
      refine .bind (ih founded) fun more t retains founded' offered' => .pure founded' ?_
      intro id hid
      rcases List.mem_append.1 hid with hid | hid
      · exact (offered id hid).extends retains.grown
      · exact offered' id hid
    refine .bind (lasts_resolveFullName firm founded name) fun found s₁ _ founded₁ _ => ?_
    cases found with
    | none => exact append founded₁ (by simp [Offering])
    | some type =>
      refine .bind (lasts_membersOf firm founded₁ type _ _) ?_
      exact fun members s₂ _ founded₂ offered => append founded₂ offered

theorem lasts_importNames (firm : c.Firm) (founded : s.Founded c) {script : SymbolId}
    {symbol : Symbol} (hs : c.symbols.get? script = some symbol) :
    Lasts c s (importNames c symbol) fun _ _ => True := by
  refine .read (fun u retains => ?_) (.pure founded trivial)
  refine List.filterMap_congr fun id hid => ?_
  obtain ⟨line, hl⟩ :=
    Session.knows_of_owns s ((firm.symbols.fits hs).owned id (by simp [hid]))
  rw [hl, retains.grown.symbol? hl]

theorem lasts_withImports (firm : c.Firm) (founded : s.Founded c) {script : SymbolId}
    (owned : c.symbols.owns script) (kinds : FlagSet MemberKind) {members : List SymbolId}
    (offered : Offering c members s) :
    Lasts c s (withImports c script kinds members) (Offering c) := by
  have append {s₁ : Session} (imports : List String) (grown : s.Extends s₁)
      (founded₁ : s₁.Founded c) :
      Lasts c s₁ (importedMembers c kinds imports >>= fun more => pure (members ++ more))
        (Offering c) := by
    refine .bind (lasts_importedMembers firm founded₁ kinds imports) ?_
    refine fun more t retains founded' offered' => .pure founded' fun id hid => ?_
    rcases List.mem_append.1 hid with hid | hid
    · exact (offered id hid).extends (grown.trans retains.grown)
    · exact offered' id hid
  refine .bind (lasts_symbol? founded (Session.knows_of_owns s owned)) ?_
  intro found s₁ retains₁ founded₁ hs
  cases found with
  | none => exact append [] retains₁.grown founded₁
  | some symbol =>
    rw [Session.symbol?_own s₁ owned] at hs
    refine .bind (lasts_importNames firm founded₁ hs) fun imports s₂ retains₂ founded₂ _ => ?_
    exact append imports (retains₁.grown.trans retains₂.grown) founded₂

theorem lasts_scriptSymbols (firm : c.Firm) (founded : s.Founded c) {script : SymbolId}
    {symbol : Symbol} (hs : c.symbols.get? script = some symbol) (kind : symbol.kind = .script)
    (kinds : FlagSet MemberKind) (filter : Filter) :
    Lasts c s (scriptSymbols c script kinds filter) (Offering c) := by
  have owned := SymbolTable.owns_of_get? hs
  have ofSymbol : Lasts c s (typeOfSymbol c script) fun _ _ => True := by
    refine .bind (lasts_symbol? founded (Session.knows_of_owns s owned)) ?_
    intro found s₁ _ founded₁ hf
    cases ((Session.symbol?_own s₁ owned).trans hs).symm.trans hf
    dsimp only
    rw [kind]
    exact .imp (lasts_scriptType firm founded₁ owned) fun _ _ _ _ _ => trivial
  refine .bind ofSymbol fun found s₁ _ founded₁ _ => ?_
  cases found with
  | none => exact lasts_withImports firm founded₁ owned kinds (by simp [Offering])
  | some type =>
    refine .bind (lasts_membersOf firm founded₁ type kinds filter) ?_
    exact fun members s₂ _ founded₂ offered => lasts_withImports firm founded₂ owned kinds offered

theorem lasts_scriptPart (firm : c.Firm) (founded : s.Founded c) (container : NodeId)
    (kinds : FlagSet MemberKind) (filter : Filter) :
    Lasts c s (scriptPart c container kinds filter) (Offering c) := by
  unfold scriptPart
  split
  · exact .pure founded (by simp [Offering])
  rename_i isScript
  split
  · rename_i script hscript
    obtain ⟨n, hn, script⟩ : ∃ n, c.tree.node? container = some n ∧ n.form.isScript = true := by
      simpa [Option.any_eq_true] using isScript
    obtain ⟨symbol, hs, kind⟩ := firm.symbols.symbolOf_script hn script hscript
    exact lasts_scriptSymbols firm founded hs kind kinds filter
  · exact .pure founded (by simp [Offering])

/-- What a container around a node offers. -/
theorem lasts_containerSymbols (firm : c.Firm) (founded : s.Founded c) {node container : NodeId}
    (around : c.tree.Within node container) (kinds : FlagSet MemberKind) (filter : Filter) :
    Lasts c s (containerSymbols c kinds filter container) fun ids t =>
      ∀ id ∈ ids, t.Surrounds c node id := by
  refine .bind (lasts_scriptPart firm founded container kinds filter) ?_
  intro ofScript s₁ _ founded₁ offered
  split
  · exact .pure founded₁ fun id hid => .inl (offered id hid)
  have kept : ∀ id ∈ (c.symbols.names .locals container).values, s₁.Knows c id := fun id hid =>
    Session.knows_of_owns s₁ (firm.symbols.names hid).owns
  refine .read (fun u retains => ?_) (.pure founded₁ ?_)
  · have taken : (ofScript.filterMap fun id => (u.symbol? c id).map fun symbol =>
        Text.lowercase symbol.qualifiedName) = ofScript.filterMap fun id =>
          (s₁.symbol? c id).map fun symbol => Text.lowercase symbol.qualifiedName := by
      refine List.filterMap_congr fun id hid => ?_
      obtain ⟨symbol, hs⟩ := (offered id hid).knows
      rw [hs, retains.grown.symbol? hs]
    rw [taken, Session.select_retains kept retains]
  · intro id hid
    rcases List.mem_append.1 hid with hid | hid
    · exact .inl (offered id hid)
    · obtain ⟨entry, hentry, rfl⟩ := List.mem_map.1 hid
      exact .inr ⟨container, around, (Session.mem_select.1 hentry).1⟩

theorem lasts_localSymbols (firm : c.Firm) (founded : s.Founded c) {node : NodeId}
    (has : c.tree.Has node) (kinds : FlagSet MemberKind) (filter : Filter) :
    Lasts c s (localSymbols c node kinds filter) fun ids t =>
      ∀ id ∈ ids, t.Surrounds c node id := by
  refine .lift fun containers hcontainers => ?_
  have around : ∀ container ∈ containers, c.tree.Within node container := by
    intro container hc
    obtain ⟨n, hn⟩ := has.node?
    rw [Tree.containersAround, Tree.lineage_eq (Tree.formAt_eq hn)] at hcontainers
    cases hcontainers
    exact Tree.within_iff.2 ⟨has, List.mem_cons.1 (List.mem_filter.1 hc).1⟩
  refine .bind (.mapM founded ?_ fun container hc s₁ _ founded₁ =>
    lasts_containerSymbols firm founded₁ (around container hc) kinds filter) ?_
  · exact fun retains found id hid => (found id hid).extends retains.grown
  intro parts s₁ _ founded₁ found
  refine .pure founded₁ fun id hid => ?_
  obtain ⟨part, hpart, inside⟩ := List.mem_flatten.1 hid
  exact found part hpart id inside

/-! ## Names -/

/-- Those among known symbols that have a name. The empty name is that of none. -/
theorem lasts_withName (firm : c.Firm) (founded : s.Founded c) (name : String)
    {ids : List SymbolId} (known : ∀ id ∈ ids, s.Knows c id) :
    Lasts c s (withName c name ids) fun found _ => found ⊆ ids ∧ (name = "" → found = []) := by
  refine .read (fun u retains => ?_) (.pure founded ⟨fun id hid => ?_, ?_⟩)
  · rw [Session.select_retains known retains]
  · obtain ⟨entry, hentry, rfl⟩ := List.mem_map.1 hid
    exact (Session.mem_select.1 hentry).1
  · rintro rfl
    refine List.map_eq_nil_iff.2 (List.eq_nil_iff_forall_not_mem.2 fun entry hentry => ?_)
    obtain ⟨-, hs, alike⟩ := Session.mem_select.1 hentry
    exact founded.named firm hs (Text.eq_empty_of_sameFolded alike)

end Query

namespace Inference

open Query

variable {c : Codebase} {s : Session} {k : Inference}

theorem lasts_parentScript (firm : c.Firm) (founded : s.Founded c) {script : Option SymbolId}
    (known : ∀ id, script = some id → c.symbols.owns id) :
    Lasts c s (parentScript c script) fun found t => Offering c found.toList t := by
  unfold parentScript
  cases script with
  | none => exact .pure founded (by simp [Offering])
  | some id =>
    refine .bind (lasts_symbol? founded (Session.knows_of_owns s (known id rfl))) ?_
    refine fun found s₁ _ founded₁ _ => .pure founded₁ fun parent hp => ?_
    obtain ⟨name, -, hfind⟩ := Option.bind_eq_some_iff.1 (Option.mem_toList.1 hp)
    obtain ⟨symbol, hs, kind, -⟩ := firm.scripts hfind
    exact Session.offers_of_namesType firm s₁ hs (by simp [Codebase.namesType, kind])

theorem lasts_typeSymbol (firm : c.Firm) (founded : s.Founded c) (name : String) :
    Lasts c s (typeSymbol c name) fun ids t => Offering c ids t ∧ (name = "" → ids = []) := by
  have resolved : Lasts c s (resolveType c name []) fun found _ => name = "" → found = none := by
    refine fun found t run => ?_
    obtain ⟨retains, founded', -, again⟩ := lasts_resolveFullName firm founded name run
    refine ⟨retains, founded', ?_, again⟩
    rintro rfl
    have nothing : resolveFullName c "" s = .ok (none, s) := by
      unfold resolveFullName
      rw [show TypeTable.intrinsic? "" = none from rfl, firm.find?_empty]
      rfl
    cases nothing.symm.trans run
    rfl
  refine .bind resolved fun found s₁ _ founded₁ blank => ?_
  cases found with
  | none => exact .pure founded₁ (by simp [Offering])
  | some type =>
    refine .bind (lasts_typeInfo founded₁ type) fun info s₂ _ founded₂ hi => .pure founded₂ ?_
    refine ⟨?_, fun none => by cases blank none⟩
    split
    · simp [Offering]
    · simpa [Offering] using founded₂.offers_info firm hi

/-- A name at a node that is no member of anything leads to the same symbols for good, and the empty
name to none. -/
theorem lasts_matching (firm : c.Firm) (founded : s.Founded c) {node : NodeId}
    (has : c.tree.Has node) (unbased : c.tree.baseFor node = .ok none) (name : String)
    (filter : Filter) :
    Lasts c s (k.matching c node name filter) fun ids t =>
      (∀ id ∈ ids, t.Surrounds c node id) ∧ (name = "" → ids = []) := by
  obtain ⟨script, around, isScript⟩ := scriptAround_eq firm.symbols has
  have known : Lasts c s (scriptAround c node) fun found _ => found = script := by
    intro found t run
    cases (around s).symm.trans run
    exact ⟨(Session.naming c).refl s, founded, rfl, fun u _ _ => around u⟩
  refine .bind known ?_
  rintro _ s₁ - founded₁ rfl
  split
  · rename_i self
    refine .pure founded₁ ⟨fun id hid => .inl ?_, fun blank => ?_⟩
    · obtain ⟨symbol, hs, kind⟩ := isScript id (Option.mem_toList.1 hid)
      exact Session.offers_of_namesType firm s₁ hs (by simp [Codebase.namesType, kind])
    · rw [blank] at self
      exact absurd (Text.eq_empty_of_sameFolded self) (by decide)
  split
  · rename_i parent
    refine .bind (lasts_parentScript firm founded₁ fun id hid => ?_) ?_
    · obtain ⟨symbol, hs, -⟩ := isScript id hid
      exact SymbolTable.owns_of_get? hs
    · refine fun found s₂ _ founded₂ offered => .pure founded₂ ⟨fun id hid => ?_, fun blank => ?_⟩
      · exact .inl (offered id hid)
      · rw [blank] at parent
        exact absurd (Text.eq_empty_of_sameFolded parent) (by decide)
  refine .lift fun kinds _ => ?_
  have search : Lasts c s₁ (k.available c node kinds filter) fun search t =>
      ∀ id ∈ search.symbols, t.Surrounds c node id := by
    refine .lift fun base hbase => ?_
    cases unbased.symm.trans hbase
    refine .bind (lasts_localSymbols firm founded₁ has kinds filter) ?_
    exact fun ids s₂ _ founded₂ found => .pure founded₂ found
  refine .bind search fun search s₂ _ founded₂ found => ?_
  refine .bind (lasts_withName firm founded₂ name fun id hid => (found id hid).knows firm) ?_
  rintro named s₃ retains founded₃ ⟨among, blank⟩
  split
  · exact .pure founded₃ ⟨fun id hid => (found id (among hid)).extends retains.grown, blank⟩
  · exact .imp (lasts_typeSymbol firm founded₃ name) fun ids t _ _ found =>
      ⟨fun id hid => .inl (found.1 id hid), found.2⟩

/-- The first of some known symbols that is no intrinsic type. -/
theorem lasts_firstDeclared (founded : s.Founded c) {ids : List SymbolId}
    (known : ∀ id ∈ ids, s.Knows c id) :
    Lasts c s (firstDeclared c ids) fun found _ => ∀ id, found = some id → id ∈ ids := by
  refine .read (fun u retains => ?_) (.pure founded fun id hid => ?_)
  · rw [Session.select_retains known retains]
  · obtain ⟨entry, hentry, rfl⟩ := Option.map_eq_some_iff.1 hid
    exact (Session.mem_select.1 (List.mem_of_mem_head? hentry)).1

/-! ## Members by name -/

/-- The members of a type with a name. No statement of a body declares one, and none has the empty
name. -/
theorem lasts_membersNamed (orderly : c.Orderly) (founded : s.Founded c) (type : TypeId)
    (name : String) :
    Lasts c s (k.membersNamed c type name) fun ids t =>
      Offering c ids t ∧ (name = "" → ids = []) := by
  refine .bind (lasts_typeInfo founded type) fun info s₁ _ founded₁ hi => ?_
  refine .bind (lasts_symbol? founded₁ (founded₁.offers_info orderly.toFirm hi).knows) ?_
  intro found s₂ retains founded₂ hs
  cases found with
  | none => exact .pure founded₂ (by simp [Offering])
  | some symbol =>
    dsimp only
    split
    · exact .pure founded₂ (by simp [Offering])
    split
    · rename_i node hd
      have declared := founded₂.declared_type orderly (retains.grown.types hi) hs hd
      refine .imp (lasts_matching orderly.toFirm founded₂ declared.has declared.unbased name _) ?_
      exact fun ids t _ _ found => ⟨fun id hid => declared.offers (found.1 id hid), found.2⟩
    · refine .bind (lasts_membersOf orderly.toFirm founded₂ type _ _) ?_
      intro members s₃ _ founded₃ offered
      refine .imp (lasts_withName orderly.toFirm founded₃ name fun id hid =>
        (offered id hid).knows) ?_
      exact fun ids t retains _ found =>
        ⟨fun id hid => (offered id (found.1 hid)).extends retains.grown, found.2⟩

end Inference

end PapyrusAnalysis
