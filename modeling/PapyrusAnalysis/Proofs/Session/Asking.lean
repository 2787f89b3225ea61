import PapyrusAnalysis.Proofs.Session.Steps

/-!
# What questions ask

A question about a name or a type asks questions of its own: about the types of other nodes, about
the symbols for identifiers, and plain ones. Which of the former two it may ask depends on the tree
and on the symbols of the session.

## Main definitions

* `Inference.Demand`: the questions that may be asked.
* `Inference.Asks`: a question that asks no others.
* `Form.operands`: the nodes that the type of a phrase is made from.
* `Query.Steps`: what a conduct has to be like for questions to keep to it.
-/

namespace PapyrusAnalysis

/-- The nodes whose types make up the type of a phrase, each with the base whose members its name is
looked for among. -/
def Form.operands : Form → List (NodeId × Option NodeId)
  | declaration _ _ initial => initial.toList.map (·, none)
  | memberAccess base access => [(access, some base)]
  | index base _ => [(base, none)]
  | argument _ value | literalExpression value => [(value, none)]
  | unary .negate inner => [(inner, none)]
  | binary left _ right => [(left, none), (right, none)]
  | _ => []

/-- The identifier of a phrase that stands for what the identifier refers to. -/
def Form.referent? : Form → Option NodeId
  | reference name | call name _ => some name
  | _ => none

theorem Query.typeInfo_eq_ok {s t : Session} {type : TypeId} {info : TypeInfo}
    (h : Query.typeInfo type s = .ok (info, t)) : t = s ∧ s.types.get? type = some info := by
  cases hi : s.types.get? type with
  | none =>
    have failed : Query.typeInfo type s = .error _ := liftM_error (TypeTable.get_eq_error hi) s
    cases failed.symm.trans h
  | some found =>
    have read : Query.typeInfo type s = .ok (found, s) := liftM_ok (TypeTable.get_eq_ok hi) s
    cases read.symm.trans h
    exact ⟨rfl, rfl⟩

namespace Inference

/-- The questions that may be asked in the sessions of some kind. -/
structure Demand where
  keeps : Session → Prop
  types : NodeId → Option NodeId → Prop
  names : NodeId → Prop

/-- Everything may be asked in every session. -/
def Demand.any : Demand := ⟨fun _ => True, fun _ _ => True, fun _ => True⟩

/-- A question that is put together from plain questions and from others that may be asked. -/
inductive Asks (c : Codebase) (Q : Demand) : {α : Type} → (Inference → Query α) → Prop where
  | plain {α : Type} {x : Query α} (h : Query.Plain c True x) : Asks c Q fun _ => x
  | typeOf {node : NodeId} {base : Option NodeId} (h : Q.types node base) :
      Asks c Q fun k => k.typeOf node base
  | symbolsFor {identifier : NodeId} (h : Q.names identifier) :
      Asks c Q fun k => k.symbolsFor identifier
  | bind {α β : Type} {x : Inference → Query α} {f : Inference → α → Query β} (first : Asks c Q x)
      (next : ∀ a, Asks c Q fun k => f k a) : Asks c Q fun k => x k >>= f k
  /-- What follows a plain question may depend on what is true of its answers. -/
  | after {α β : Type} {x : Query α} {f : Inference → α → Query β} {P : α → Prop}
      (first : Query.Plain c True x) (known : ∀ {s a t}, Q.keeps s → x s = .ok (a, t) → P a)
      (next : ∀ a, P a → Asks c Q fun k => f k a) : Asks c Q fun k => x >>= f k

namespace Asks

variable {c : Codebase} {Q : Demand} {α β : Type}

theorem pure (a : α) : Asks c Q fun _ => Pure.pure a := .plain (.pure a)

/-- A plain question and what follows it. -/
theorem next {x : Query α} {f : Inference → α → Query β} (first : Query.Plain c True x)
    (next : ∀ a, Asks c Q fun k => f k a) : Asks c Q fun k => x >>= f k :=
  .bind (.plain first) next

/-- Reading what needs no session. -/
theorem lift {o : Outcome α} {f : Inference → α → Query β}
    (next : ∀ a, o = .ok a → Asks c Q fun k => f k a) : Asks c Q fun k => liftM o >>= f k := by
  refine .after (.lift o) ?_ next
  intro s a t _ run
  exact (liftM_eq_ok run).1

/-! ## Names -/

/-- What asking for the symbols at a node may lead to: if the node is a member of something, its
base. -/
def Open (c : Codebase) (Q : Demand) (node : NodeId) : Prop :=
  ∀ base, c.tree.baseFor node = .ok (some base) → Q.types base none ∧
    ∀ identifier, c.tree.form base = .ok (.reference identifier) → Q.names identifier

theorem isStaticAccess {node : NodeId} (h : Open c Q node) :
    Asks c Q fun k => k.isStaticAccess c node := by
  refine .lift fun base hbase => ?_
  split
  · rename_i base
    refine .lift fun form hform => ?_
    split
    · rename_i identifier
      refine .next (.lift _) fun name => .bind (.symbolsFor ((h base hbase).2 identifier hform)) ?_
      intro search
      split
      · exact .pure false
      · exact .next (.symbol? _) fun symbol => .pure _
    · exact .pure false
  · exact .pure false

theorem available {node : NodeId} (h : Open c Q node) (kinds : FlagSet MemberKind)
    (filter : Filter) : Asks c Q fun k => k.available c node kinds filter := by
  refine .lift fun base hbase => ?_
  split
  · rename_i base
    refine .bind (.isStaticAccess h) fun isStatic => .bind (.typeOf (h base hbase).1) fun type => ?_
    split
    · refine .next (.typeInfo _) fun info => ?_
      split
      · exact .pure _
      · exact .next (.lift _) fun kinds => .next (.membersOf _ _ _) fun members => .pure _
    · exact .pure _
  · exact .next (.localSymbols node kinds filter) fun symbols => .pure _

theorem matching {node : NodeId} (h : Open c Q node) (name : String) (filter : Filter) :
    Asks c Q fun k => k.matching c node name filter := by
  refine .next (.scriptAround node) fun script => ?_
  split
  · exact .pure _
  split
  · exact .next (.parentScript script) fun parent => .pure _
  refine .next (.lift _) fun kinds => .bind (.available h kinds filter) fun search => ?_
  refine .next (.withName name _) fun found => ?_
  split
  · exact .pure _
  · exact .plain (.typeSymbol name)

/-- The members of a type with a name, by the symbol that the type belongs to. -/
def membersThrough (k : Inference) (c : Codebase) (type : TypeId) (name : String) :
    Option Symbol → Query (List SymbolId)
  | none => return []
  | some symbol => do
    if symbol.kind = .intrinsic then return []
    match symbol.declaration with
    | some declaration => k.matching c declaration name .everything
    | none => Query.withName c name (← Query.membersOf c type MemberKind.anywhere .everything)

theorem membersNamed_eq (k : Inference) (c : Codebase) (type : TypeId) (name : String) :
    k.membersNamed c type name =
      (Query.typeInfo type >>= fun info => Query.symbol? c info.symbol) >>=
        membersThrough k c type name := by
  rw [bind_assoc]
  unfold Inference.membersNamed
  congr 1
  funext info
  congr 1
  funext found
  cases found <;> rfl

/-- What is known of the symbol that a type belongs to. -/
def Owners (c : Codebase) (Q : Demand) : Prop :=
  ∀ {s type info symbol declaration}, Q.keeps s → s.types.get? type = some info →
    s.symbol? c info.symbol = some symbol → symbol.declaration = some declaration →
    Open c Q declaration

theorem membersNamed (owners : Owners c Q) (type : TypeId) (name : String) :
    Asks c Q fun k => k.membersNamed c type name := by
  simp only [membersNamed_eq]
  refine .after (P := fun found => ∀ symbol declaration, found = some symbol →
    symbol.declaration = some declaration → Open c Q declaration)
    (.bind (.typeInfo type) fun info => .symbol? _) ?_ ?_
  · rintro s _ t kept run symbol declaration rfl hd
    obtain ⟨info, u, first, second⟩ := bind_eq_ok run
    obtain ⟨rfl, hinfo⟩ := Query.typeInfo_eq_ok first
    rw [Query.symbol?_eq] at second
    exact owners kept hinfo (congrArg Prod.fst (Except.ok.inj second)) hd
  · intro found known
    cases found with
    | none => exact .pure []
    | some symbol =>
      dsimp only [membersThrough]
      split
      · exact .pure []
      split
      · rename_i declaration hd
        exact .matching (known symbol declaration rfl hd) name .everything
      · exact .next (.membersOf _ _ _) fun members => .plain (.withName name members)

theorem findSymbols (owners : Owners c Q) {identifier : NodeId}
    (h : ∀ base, c.tree.baseFor identifier = .ok (some base) → Q.types base none) :
    Asks c Q fun k => k.findSymbols c identifier := by
  refine .next (.lift _) fun name => .lift fun base hbase => ?_
  split
  · rename_i base
    refine .bind (.typeOf (h base hbase)) fun type => ?_
    split
    · exact .bind (.membersNamed owners _ _) fun symbols => .pure _
    · exact .pure _
  · rename_i unbased
    have isOpen : Open c Q identifier := by
      intro base hb
      rw [hbase] at hb
      cases hb
      exact absurd rfl (unbased base)
    exact .bind (.matching isOpen _ _) fun symbols => .pure _

/-! ## Types -/

/-- What is known of the symbols of a session. -/
def Declared (c : Codebase) (Q : Demand) : Prop :=
  ∀ {s id symbol declaration}, Q.keeps s → s.symbol? c id = some symbol →
    symbol.declaration = some declaration → Q.types declaration none

theorem declaredType (declared : Declared c Q) (id : SymbolId) :
    Asks c Q fun k => k.declaredType c id := by
  refine .after (P := fun found => ∀ symbol declaration, found = some symbol →
    symbol.declaration = some declaration → Q.types declaration none) (.symbol? id) ?_ ?_
  · rintro s _ t kept run symbol declaration rfl hd
    rw [Query.symbol?_eq] at run
    exact declared kept (congrArg Prod.fst (Except.ok.inj run)) hd
  · intro found known
    split
    · split
      · rename_i declaration hd
        exact .typeOf (known _ declaration rfl hd)
      · split
        · exact .plain (.typeOfSymbol id)
        · exact .plain (.typeOfSymbol id)
        · exact .plain (.typeOfSymbol id)
        · exact .pure _
        · exact .plain (.typeOfReference _)
        · exact .pure none
    · exact .pure none

theorem firstType (declared : Declared c Q) (ids : List SymbolId) :
    Asks c Q fun k => k.firstType c ids := by
  refine .next (.firstDeclared ids) fun symbol => ?_
  split
  · exact .declaredType declared _
  · exact .pure none

theorem referenceType (declared : Declared c Q) (owners : Owners c Q) {identifier : NodeId}
    {base : Option NodeId} (based : ∀ b, base = some b → Q.types b none)
    (unbased : base = none → Open c Q identifier) :
    Asks c Q fun k => k.referenceType c identifier base := by
  refine .next (.lift _) fun name => ?_
  split
  · cases base with
    | none => exact .bind (.matching (unbased rfl) _ _) fun symbols => .firstType declared symbols
    | some base =>
      refine .bind (.typeOf (based base rfl)) fun type => ?_
      split
      · refine .next (.typeInfo _) fun info => ?_
        dsimp only
        split
        · exact .pure none
        · exact .bind (.membersNamed owners _ _) fun symbols => .firstType declared symbols
      · exact .pure none
  · exact .pure none

/-- What may be asked to find the type of a node. -/
structure Closed (c : Codebase) (Q : Demand) (node : NodeId) (base : Option NodeId) : Prop where
  operands : ∀ form, c.tree.form node = .ok form → ∀ operand ∈ form.operands,
    Q.types operand.1 operand.2
  based : ∀ form identifier b, c.tree.form node = .ok form → form.referent? = some identifier →
    base = some b → Q.types b none
  unbased : ∀ form identifier, c.tree.form node = .ok form → form.referent? = some identifier →
    base = none → Open c Q identifier

/-- The type of a node is found from its operands and from what its identifier refers to. -/
theorem formType_of {node : NodeId} {base : Option NodeId}
    (operands : ∀ form, c.tree.form node = .ok form → ∀ operand ∈ form.operands,
      Q.types operand.1 operand.2)
    (referent : ∀ form identifier, c.tree.form node = .ok form → form.referent? = some identifier →
      Asks c Q fun k => k.referenceType c identifier base) :
    Asks c Q fun k => k.formType c node base := by
  refine .lift fun form hform => ?_
  have operand {id : NodeId} {b : Option NodeId} (h : (id, b) ∈ form.operands) :
      Asks c Q fun k => k.typeOf id b := .typeOf (operands form hform _ h)
  have refers {identifier : NodeId} (h : form.referent? = some identifier) :
      Asks c Q fun k => k.referenceType c identifier base := referent form identifier hform h
  cases form with
  | script =>
    dsimp only
    split
    · exact .plain (.typeOfSymbol _)
    · exact .pure none
  | function =>
    refine .next (.lift _) fun header => ?_
    split
    · exact .plain (.typeOfTypeName _)
    · exact .pure _
  | variableDefinition | property | parameter | cast | newStruct | newArray =>
    exact .plain (.typeOfTypeName _)
  | declaration typeName _ initial =>
    refine .next (.lift _) fun isVar => ?_
    split
    · cases initial with
      | none => exact .pure none
      | some initial => exact operand (by simp [Form.operands])
    · exact .plain (.typeOfTypeName _)
  | reference | call => exact refers rfl
  | memberAccess => exact operand (by simp [Form.operands])
  | index =>
    refine .bind (operand (by simp [Form.operands])) fun array => ?_
    split
    · exact .plain (.elementType _)
    · exact .pure none
  | argument | literalExpression => exact operand (by simp [Form.operands])
  | unary operator inner =>
    cases operator with
    | not => exact .pure _
    | negate => exact operand (by simp [Form.operands])
  | binary left operator right =>
    dsimp only
    split
    · exact .pure _
    · refine .bind (operand (by simp [Form.operands])) fun a => ?_
      exact .bind (operand (by simp [Form.operands])) fun b => .pure _
  | _ => exact .pure _

theorem formType (declared : Declared c Q) (owners : Owners c Q) {node : NodeId}
    {base : Option NodeId} (closed : Closed c Q node base) :
    Asks c Q fun k => k.formType c node base :=
  .formType_of closed.operands fun form identifier hform h =>
    .referenceType declared owners (fun b => closed.based form identifier b hform h)
      (closed.unbased form identifier hform h)

/-! ## Anything may be asked -/

theorem Open.any (node : NodeId) : Open c .any node := fun _ _ => ⟨trivial, fun _ _ => trivial⟩

theorem owners_any : Owners c .any := fun _ _ _ _ => .any _

theorem declared_any : Declared c .any := fun _ _ _ => trivial

theorem closed_any (node : NodeId) (base : Option NodeId) : Closed c .any node base where
  operands _ _ _ _ := trivial
  based _ _ _ _ _ _ := trivial
  unbased _ _ _ _ _ := .any _

end Asks

end Inference

/-! ## Keeping to a conduct -/

/-- A name has just led to a type, from a session of some kind. -/
def Query.Named (c : Codebase) (keeps : Session → Prop) (name : String) (s : Session) : Prop :=
  ∃ before type, keeps before ∧ Query.resolveType c name [] before = .ok (some type, s)

theorem Query.Named.imp {c : Codebase} {P Q : Session → Prop} {name : String} {s : Session}
    (h : Query.Named c P name s) (imp : ∀ s, P s → Q s) : Query.Named c Q name s := by
  obtain ⟨before, type, kept, run⟩ := h
  exact ⟨before, type, imp before kept, run⟩

/-- The three ways in which a session changes keep to a conduct. -/
structure Query.Steps (c : Codebase) (D : Conduct Session) : Prop where
  scriptType : ∀ id, Steady D (Query.scriptType c id)
  /-- An array type is made only if the name of its elements leads to a type. -/
  arrayOf : ∀ element {s answer t}, D.keeps s → Query.Named c D.keeps element s →
    Query.arrayOf element s = .ok (answer, t) → D.grows s t ∧ D.keeps t
  /-- A node becomes pending, and is so no longer when something else has been asked. -/
  pending : ∀ {s t node}, D.keeps s → D.keeps { s with pending := node :: s.pending } ∧
    (D.grows { s with pending := node :: s.pending } t → D.keeps t →
      D.grows s { t with pending := t.pending.erase node } ∧
        D.keeps { t with pending := t.pending.erase node })

section

variable {c : Codebase} {D : Conduct Session} {α : Type}

theorem Query.Plain.steady {arrays : Prop} {x : Query α} (h : Query.Plain c arrays x)
    (steps : Query.Steps c D) : Steady D x := by
  induction h with
  | read f =>
    rintro s _ _ kept ⟨⟩
    exact ⟨D.refl s, kept⟩
  | lift o => exact .lift o
  | script id => exact steps.scriptType id
  | array _ element _ named =>
    intro s answer u kept run
    rw [arrayTypeFor_eq] at run
    obtain ⟨found, t, hfound, rest⟩ := bind_eq_ok run
    obtain ⟨grows, kept'⟩ := named kept hfound
    cases found with
    | none =>
      cases rest
      exact ⟨grows, kept'⟩
    | some type =>
      obtain ⟨grows', kept''⟩ := steps.arrayOf element kept' ⟨s, type, kept, hfound⟩ rest
      exact ⟨D.trans grows grows', kept''⟩
  | bind _ _ first next => exact .bind first next

namespace Inference

variable {Q : Demand} {k : Inference}

theorem Asks.steady {f : Inference → Query α} (h : Asks c Q f) (steps : Query.Steps c D)
    (keeps : ∀ s, D.keeps s → Q.keeps s)
    (types : ∀ {node base}, Q.types node base → Steady D (k.typeOf node base))
    (names : ∀ {identifier}, Q.names identifier → Steady D (k.symbolsFor identifier)) :
    Steady D (f k) := by
  induction h with
  | plain h => exact h.steady steps
  | typeOf h => exact types h
  | symbolsFor h => exact names h
  | bind _ _ first next => exact .bind first next
  | after first known _ next =>
    intro s b u kept run
    obtain ⟨a, t, hfirst, rest⟩ := bind_eq_ok run
    obtain ⟨grows, kept'⟩ := first.steady steps kept hfirst
    obtain ⟨grows', kept''⟩ := next a (known (keeps s kept) hfirst) kept' rest
    exact ⟨D.trans grows grows', kept''⟩

theorem findType_steady (steps : Query.Steps c D) {node : NodeId} {base : Option NodeId}
    (h : Steady D (k.formType c node base)) : Steady D (k.findType c node base) := by
  intro s a u kept run
  rw [findType_eq] at run
  split at run
  · cases run
    exact ⟨D.refl s, kept⟩
  · obtain ⟨⟨b, t⟩, found, rest⟩ := exists_of_bind_eq_ok run
    cases rest
    obtain ⟨kept', back⟩ := @Query.Steps.pending _ _ steps s t node kept
    obtain ⟨grows, kept''⟩ := h kept' found
    exact back grows kept''

/-- A question that asks anything keeps to a conduct if the answers to its questions do. -/
theorem Asks.steady_any {f : Inference → Query α} (h : Asks c .any f) (steps : Query.Steps c D)
    (types : ∀ node base, Steady D (k.typeOf node base))
    (names : ∀ identifier, Steady D (k.symbolsFor identifier)) : Steady D (f k) :=
  h.steady steps (fun _ _ => trivial) (fun _ => types _ _) fun _ => names _

/-- Questions about names and types keep to every conduct that the changes of a session keep to. -/
theorem atDepth_steady (steps : Query.Steps c D) (depth : Nat) :
    (∀ node base, Steady D ((atDepth c depth).typeOf node base)) ∧
      ∀ identifier, Steady D ((atDepth c depth).symbolsFor identifier) := by
  induction depth with
  | zero => exact ⟨fun _ _ => .throw _, fun _ => .throw _⟩
  | succ depth ih =>
    refine ⟨fun node base => findType_steady steps ?_, fun identifier => ?_⟩
    · exact (Asks.formType Asks.declared_any Asks.owners_any (Asks.closed_any node base)).steady_any
        steps ih.1 ih.2
    · exact (Asks.findSymbols Asks.owners_any fun _ _ => trivial).steady_any steps ih.1 ih.2

end Inference

namespace Query.Steps

variable (steps : Query.Steps c D)

include steps

theorem plain {x : Query α} (h : Query.Plain c True x) : Steady D x := h.steady steps

theorem asks {f : Inference → Query α} (h : Inference.Asks c .any f) : Steady D (f c.inference) :=
  h.steady_any steps (Inference.atDepth_steady steps _).1 (Inference.atDepth_steady steps _).2

theorem typeOf (node : NodeId) : Steady D (Query.typeOf c node) :=
  (Inference.atDepth_steady steps _).1 node none

theorem symbolsFor (identifier : NodeId) : Steady D (Query.symbolsFor c identifier) :=
  (Inference.atDepth_steady steps _).2 identifier

theorem declaredType (id : SymbolId) : Steady D (Query.declaredType c id) :=
  steps.asks (.declaredType Inference.Asks.declared_any id)

theorem isWritable (identifier : NodeId) : Steady D (Query.isWritable c identifier) := by
  refine .bind (steps.symbolsFor identifier) fun search => ?_
  split
  · exact .pure false
  · exact .bind (steps.plain (.symbol? _)) fun symbol => .pure _

end Query.Steps

end

end PapyrusAnalysis
