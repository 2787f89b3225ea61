import PapyrusAnalysis.Proofs.Session.Inference
import PapyrusAnalysis.Proofs.Steady
import PapyrusAnalysis.Session.Assignment

/-!
# What questions are made of

Whatever is asked, a session changes in three ways only: the type of a script is made, an array type
is made, or a node becomes pending while its type is worked out. A question that makes no node
pending is called plain. It is put together from reading the session, making the type of a script
and making an array type. What is true of these is true of every plain question. Most plain
questions make no array type either.

## Main definitions

* `Query.Plain`: the questions that make no node pending.
-/

namespace PapyrusAnalysis

namespace Query

/-- The questions that make no node pending, and array types only if `arrays` is true. What they
read does not depend on the nodes that are pending either. -/
inductive Plain (c : Codebase) (arrays : Prop) : {α : Type} → Query α → Prop where
  | read {α : Type} (f : Session → α)
      (blind : ∀ s pending, f { s with pending := pending } = f s) :
      Plain c arrays (fun s => .ok (f s, s))
  | lift {α : Type} (o : Outcome α) : Plain c arrays (liftM o)
  | script (id : SymbolId) : Plain c arrays (scriptType c id)
  | array (allowed : arrays) (element : String)
      (named : Plain c arrays (resolveType c element [])) :
      Plain c arrays (arrayTypeFor c element)
  | bind {α β : Type} {x : Query α} {f : α → Query β} (first : Plain c arrays x)
      (next : ∀ a, Plain c arrays (f a)) : Plain c arrays (x >>= f)

namespace Plain

variable {c : Codebase} {arrays : Prop} {α β : Type}

theorem pure (a : α) : Plain c arrays (Pure.pure a) := .read (fun _ => a) fun _ _ => rfl

theorem throw (e : Fault) : Plain c arrays (MonadExcept.throw e : Query α) := .lift (.error e)

theorem mapM {f : α → Query β} (h : ∀ a, Plain c arrays (f a)) (xs : List α) :
    Plain c arrays (xs.mapM f) := by
  induction xs with
  | nil => exact .pure _
  | cons a xs ih =>
    rw [List.mapM_cons]
    exact .bind (h a) fun b => .bind ih fun bs => .pure _

/-- Reading the session, as far as the pending nodes play no part. -/
theorem get {f : Session → Query α} (blind : ∀ s pending, f { s with pending := pending } = f s)
    (next : ∀ s, Plain c arrays (f s)) : Plain c arrays (MonadState.get >>= f) := by
  have same : (MonadState.get >>= f) =
      ((fun s => .ok ({ s with pending := [] }, s) : Query Session) >>= f) := by
    funext s
    exact congrFun (blind s []).symm s
  rw [same]
  exact .bind (.read _ fun _ _ => rfl) next

/-! ## Types -/

theorem symbol? (id : SymbolId) : Plain c arrays (Query.symbol? c id) :=
  .get (fun _ _ => rfl) fun _ => .pure _

theorem typeInfo (id : TypeId) : Plain c arrays (Query.typeInfo id) :=
  .get (fun _ _ => rfl) fun s => .lift (s.types.get id)

theorem structType (id : SymbolId) : Plain c arrays (structType c id) := by
  refine .bind (.symbol? id) fun symbol => ?_
  split
  · dsimp only
    split
    · refine .get (fun _ _ => rfl) fun s => ?_
      split
      · exact .pure _
      · refine .bind (.script _) fun found => ?_
        split
        · exact .get (fun _ _ => rfl) fun _ => .pure _
        · exact .pure none
    · exact .pure none
  · exact .pure none

theorem typeOfSymbol (id : SymbolId) : Plain c arrays (typeOfSymbol c id) := by
  refine .bind (.symbol? id) fun symbol => ?_
  split
  · split
    · exact .script id
    · exact .structType id
    · exact .pure _
    · exact .pure none
  · exact .pure none

theorem resolveFullName (name : String) : Plain c arrays (resolveFullName c name) := by
  unfold Query.resolveFullName
  split
  · exact .pure _
  split
  · exact .script _
  dsimp only
  split
  · exact .pure none
  split
  · refine .bind (.script _) fun found => ?_
    split
    · refine .bind (.typeInfo _) fun info => ?_
      split
      · exact .pure _
      · exact .pure none
    · exact .pure none
  · exact .pure none

theorem resolveType (name : String) (containers : List String) :
    Plain c arrays (resolveType c name containers) := by
  induction containers with
  | nil => exact .resolveFullName name
  | cons container rest ih =>
    refine .bind (.resolveFullName _) fun found => ?_
    split
    · exact .pure _
    · exact ih

theorem arrayTypeFor (element : String) : Plain c True (arrayTypeFor c element) :=
  .array trivial element (.resolveType element [])

theorem elementType (id : TypeId) : Plain c arrays (elementType c id) := by
  refine .bind (.typeInfo id) fun info => ?_
  split
  · exact .resolveType _ []
  · exact .pure none

theorem orArray (isArray : Bool) (type : TypeId) : Plain c True (orArray c isArray type) := by
  unfold Query.orArray
  split
  · exact .bind (.typeInfo type) fun info => .arrayTypeFor _
  · exact .pure _

theorem typeOfReference (reference : TypeReference) :
    Plain c True (typeOfReference c reference) := by
  refine .bind (.resolveType _ []) fun found => ?_
  split
  · exact .orArray _ _
  · exact .pure none

theorem hierarchyFrom (fuel : Nat) (seen : List TypeId) (type : TypeId) :
    Plain c arrays (hierarchyFrom c fuel seen type) := by
  induction fuel generalizing seen type with
  | zero => exact .throw _
  | succ fuel ih =>
    unfold Query.hierarchyFrom
    split
    · exact .pure []
    refine .bind (.typeInfo type) fun info => .bind (.symbol? _) fun symbol => ?_
    split
    · refine .bind (.resolveType _ []) fun next => ?_
      split
      · refine .bind (.typeInfo _) fun info => ?_
        split
        · exact .bind (ih _ _) fun rest => .pure _
        · exact .pure _
      · exact .pure _
    · exact .pure _

theorem scriptHierarchy (type : TypeId) : Plain c arrays (scriptHierarchy c type) :=
  .hierarchyFrom _ [] type

theorem scriptAround (node : NodeId) : Plain c arrays (scriptAround c node) :=
  .bind (.lift _) fun _ => .pure _

theorem importNames (script : Symbol) : Plain c arrays (importNames c script) :=
  .get (fun _ _ => rfl) fun _ => .pure _

theorem resolveIn (symbol : Option Symbol) (name : String) :
    Plain c arrays (resolveIn c symbol name) := by
  unfold Query.resolveIn
  dsimp only
  cases symbol with
  | none =>
    refine .bind (.pure _) fun imports => .bind (.resolveType name imports) fun found => ?_
    split
    · exact .pure _
    · exact .pure none
  | some symbol =>
    refine .bind (.importNames symbol) fun imports => ?_
    refine .bind (.resolveType name imports) fun found => ?_
    split
    · exact .pure _
    · dsimp only
      split
      · exact .resolveType name _
      · exact .pure none

theorem resolveAt (node : NodeId) (name : String) : Plain c arrays (resolveAt c node name) := by
  rw [resolveAt_eq]
  refine .bind (.scriptAround node) fun script => ?_
  split
  · rename_i script
    have rest : Plain c arrays (Query.symbol? c script >>= (Query.resolveIn c · name)) :=
      .bind (.symbol? script) fun symbol => .resolveIn symbol name
    refine .bind (.script script) fun found => ?_
    split
    · refine .bind (.scriptHierarchy _) fun hierarchy => .bind (.mapM ?_ _) fun namespaces => ?_
      · exact fun type => .bind (.typeInfo type) fun info => .pure _
      · refine .bind (.resolveType name namespaces) fun found => ?_
        split
        · exact .pure _
        · exact rest
    · exact rest
  · exact .resolveIn none name

theorem typeOfTypeName (node : NodeId) : Plain c True (typeOfTypeName c node) := by
  refine .bind (.lift _) fun form => ?_
  split
  · refine .bind (.lift _) fun name => ?_
    split
    · refine .bind (.resolveAt node _) fun found => ?_
      split
      · exact .orArray _ _
      · exact .pure none
    · exact .pure none
  · exact .pure none

/-! ## Members -/

theorem ownMembers (type : TypeId) (wanted : Symbol → Bool) :
    Plain c arrays (ownMembers c type wanted) := by
  refine .bind (.typeInfo type) fun info => .bind (.symbol? _) fun symbol => ?_
  split
  · exact .get (fun _ _ => rfl) fun _ => .pure _
  · exact .pure []

theorem inheritedMembers (type : TypeId) (filter : Filter) (wanted : Symbol → Bool) :
    Plain c arrays (inheritedMembers c type filter wanted) := by
  refine .bind (.typeInfo type) fun info => ?_
  split
  · exact .ownMembers type wanted
  · refine .bind (.scriptHierarchy type) fun hierarchy => ?_
    exact .bind (.mapM (fun t => .ownMembers t wanted) _) fun members => .pure _

theorem groupMembers (type : TypeId) (filter : Filter) (group : MemberGroup) :
    Plain c arrays (groupMembers c type filter group) := by
  unfold Query.groupMembers
  split
  · exact .bind (.inheritedMembers type filter _) fun members => .pure _
  · exact .bind (.ownMembers type _) fun members => .pure _

theorem membersOf (type : TypeId) (kinds : FlagSet MemberKind) (filter : Filter) :
    Plain c arrays (membersOf c type kinds filter) := by
  refine .bind (.typeInfo type) fun info => ?_
  exact .bind (.mapM (fun group => .groupMembers type filter group) _) fun members => .pure _

theorem extendsNamed (type : TypeId) (name : String) :
    Plain c arrays (extendsNamed c type name) := by
  refine .bind (.scriptHierarchy type) fun hierarchy => .bind (.mapM ?_ _) fun names => .pure _
  exact fun type => .bind (.typeInfo type) fun info => .pure _

theorem isAssignable (place value : TypeId) : Plain c arrays (isAssignable c place value) := by
  have direct (info : TypeInfo) : Plain c arrays (do
      if place = value || acceptsAll place || value = Intrinsic.any.typeId
          || (isPrimitive place && isPrimitive value) then return true
      if info.isScript then
        if (← Query.typeInfo value).isScript then
          return ← Query.extendsNamed c value info.qualifiedName
      return false) := by
    split
    · exact .pure true
    split
    · refine .bind (.typeInfo value) fun other => ?_
      split
      · exact .extendsNamed value _
      · exact .pure false
    · exact .pure false
  refine .bind (.typeInfo place) fun info => ?_
  dsimp only
  split
  · refine .bind (.typeInfo value) fun other => ?_
    split
    · exact .pure true
    · exact direct info
  · exact direct info

/-! ## Scopes -/

theorem importedMembers (kinds : FlagSet MemberKind) (names : List String) :
    Plain c arrays (importedMembers c kinds names) := by
  induction names with
  | nil => exact .pure []
  | cons name rest ih =>
    refine .bind (.resolveType name []) fun found => ?_
    split
    · exact .bind (.membersOf _ _ _) fun members => .bind ih fun more => .pure _
    · exact .bind (.pure []) fun members => .bind ih fun more => .pure _

theorem withImports (script : SymbolId) (kinds : FlagSet MemberKind) (members : List SymbolId) :
    Plain c arrays (withImports c script kinds members) := by
  have rest (imports : List String) : Plain c arrays (do
      return members ++ (← Query.importedMembers c kinds imports)) :=
    .bind (.importedMembers kinds imports) fun more => .pure _
  refine .bind (.symbol? script) fun symbol => ?_
  split
  · exact .bind (.importNames _) rest
  · exact .bind (.pure []) rest

theorem scriptSymbols (script : SymbolId) (kinds : FlagSet MemberKind) (filter : Filter) :
    Plain c arrays (scriptSymbols c script kinds filter) := by
  refine .bind (.typeOfSymbol script) fun found => ?_
  split
  · exact .bind (.membersOf _ kinds filter) fun members => .withImports script kinds members
  · exact .bind (.pure []) fun members => .withImports script kinds members

theorem scriptPart (container : NodeId) (kinds : FlagSet MemberKind) (filter : Filter) :
    Plain c arrays (scriptPart c container kinds filter) := by
  unfold Query.scriptPart
  split
  · exact .pure []
  split
  · exact .scriptSymbols _ kinds filter
  · exact .pure []

theorem containerSymbols (kinds : FlagSet MemberKind) (filter : Filter) (container : NodeId) :
    Plain c arrays (containerSymbols c kinds filter container) := by
  refine .bind (.scriptPart container kinds filter) fun ofScript => ?_
  split
  · exact .pure _
  · exact .get (fun _ _ => rfl) fun _ => .pure _

theorem localSymbols (node : NodeId) (kinds : FlagSet MemberKind) (filter : Filter) :
    Plain c arrays (localSymbols c node kinds filter) := by
  refine .bind (.lift _) fun containers => ?_
  exact .bind (.mapM (fun container => .containerSymbols kinds filter container) _) fun _ => .pure _

theorem withName (name : String) (ids : List SymbolId) : Plain c arrays (withName c name ids) :=
  .get (fun _ _ => rfl) fun _ => .pure _

theorem parentScript (script : Option SymbolId) :
    Plain c arrays (Inference.parentScript c script) := by
  unfold Inference.parentScript
  split
  · exact .bind (.symbol? _) fun symbol => .pure _
  · exact .pure none

theorem typeSymbol (name : String) : Plain c arrays (Inference.typeSymbol c name) := by
  refine .bind (.resolveType name []) fun found => ?_
  split
  · exact .bind (.typeInfo _) fun info => .pure _
  · exact .pure []

theorem firstDeclared (ids : List SymbolId) : Plain c arrays (Inference.firstDeclared c ids) :=
  .get (fun _ _ => rfl) fun _ => .pure _

theorem isBlockScoped (id : SymbolId) : Plain c arrays (isBlockScoped c id) := by
  refine .bind (.symbol? id) fun symbol => ?_
  split
  · refine .bind (.lift _) fun form => ?_
    split <;> exact .pure _
  · exact .pure false

end Plain

end Query

end PapyrusAnalysis
