import PapyrusAnalysis.Session.Scope

/-!
# Names and types

The type of an expression depends on what its names refer to, and what a name behind a point refers
to depends on the type of the expression before it. Both questions are answered together: each
answer is put together from answers to smaller questions, which an `Inference` provides.

A node whose type is being worked out has no type for the questions in between, so that a variable
that depends on itself does no harm.

## Main definitions

* `Inference`: the answers to both questions.
* `Inference.atDepth`: answers that are found with at most some number of questions inside each
  other.
* `Query.typeOf`: the type of an expression or declaration.
* `Query.symbolsFor`: the symbols that an identifier can refer to.
-/

namespace PapyrusAnalysis

/-- The symbols found for a name, and the expression that they are members of. -/
structure Search where
  base : Option NodeId
  symbols : List SymbolId
deriving DecidableEq, Repr

/-- Answers to the two questions of name look-up. -/
structure Inference where
  /-- The type of a node, whose name is looked for among the members of a base if one is given. -/
  typeOf : NodeId → Option NodeId → Query (Option TypeId)
  /-- The symbols that an identifier can refer to. -/
  symbolsFor : NodeId → Query Search

namespace Inference

/-! ## Finding symbols -/

/-- Whether a node is a member of a script as such, as in `Debug.Trace()`, and not of an
instance. -/
def isStaticAccess (k : Inference) (c : Codebase) (node : NodeId) : Query Bool := do
  let some base ← c.tree.baseFor node | return false
  let .reference identifier ← c.tree.form base | return false
  let name := (← c.tree.nameOf identifier).getD ""
  match (← k.symbolsFor identifier).symbols with
  | [] => return false
  | first :: _ =>
    return (← Query.symbol? c first).any fun s => s.kind = .script && Text.sameFolded s.name name

/-- The symbols that can be named at a node: the members of a base expression, or else what the
containers around the node offer. Of a script as such only what needs no instance can be named, and
of an instance only what belongs to it. -/
def available (k : Inference) (c : Codebase) (node : NodeId) (kinds : FlagSet MemberKind)
    (filter : Filter) : Query Search := do
  let some base ← c.tree.baseFor node
    | return ⟨none, ← Query.localSymbols c node kinds filter⟩
  let isStatic ← k.isStaticAccess c node
  let filter := if isStatic then filter.erase .ofInstance else filter.erase .global
  let some type ← k.typeOf base none | return ⟨base, []⟩
  if (← Query.typeInfo type).isIntrinsic then return ⟨base, []⟩
  let kinds ← c.tree.memberKindsAt node
  return ⟨base, ← Query.membersOf c type kinds filter⟩

/-- The script that a script extends, by its name. -/
def parentScript (c : Codebase) (script : Option SymbolId) : Query (Option SymbolId) := do
  let some script := script | return none
  let extended := (← Query.symbol? c script).bind (·.extendedScript)
  return extended.bind c.scripts.find?

/-- The symbol of the type with a name, unless it is an array. -/
def typeSymbol (c : Codebase) (name : String) : Query (List SymbolId) := do
  let some type ← Query.resolveType c name [] | return []
  let info ← Query.typeInfo type
  return if info.isArray then [] else [info.symbol]

/-- The symbols with a name that can be named at a node. A name that is found nowhere can be that of
a type. -/
def matching (k : Inference) (c : Codebase) (node : NodeId) (name : String) (filter : Filter) :
    Query (List SymbolId) := do
  let script ← Query.scriptAround c node
  if Text.sameFolded name "self" then return script.toList
  if Text.sameFolded name "parent" then return (← parentScript c script).toList
  let search ← k.available c node (← c.tree.memberKindsAt node) filter
  let found ← Query.withName c name search.symbols
  if !found.isEmpty || search.base.isSome then return found
  typeSymbol c name

/-- The members of a type with a name. They are looked for from the declaration of the type, or
among its members if it has none. -/
def membersNamed (k : Inference) (c : Codebase) (type : TypeId) (name : String) :
    Query (List SymbolId) := do
  let some symbol ← Query.symbol? c (← Query.typeInfo type).symbol | return []
  if symbol.kind = .intrinsic then return []
  match symbol.declaration with
  | some declaration => k.matching c declaration name .everything
  | none =>
    Query.withName c name (← Query.membersOf c type MemberKind.anywhere .everything)

/-- The symbols that an identifier can refer to. -/
def findSymbols (k : Inference) (c : Codebase) (identifier : NodeId) : Query Search := do
  let name := (← c.tree.nameOf identifier).getD ""
  let some base ← c.tree.baseFor identifier
    | return ⟨none, ← k.matching c identifier name .everything⟩
  match ← k.typeOf base none with
  | some type => return ⟨base, ← k.membersNamed c type name⟩
  | none => return ⟨base, []⟩

/-! ## Finding types -/

/-- The type that a symbol was declared with. -/
def declaredType (k : Inference) (c : Codebase) (id : SymbolId) : Query (Option TypeId) := do
  let some symbol ← Query.symbol? c id | return none
  match symbol.declaration with
  | some declaration => k.typeOf declaration none
  | none =>
    match symbol.kind, symbol.valueType with
    | .script, _ | .struct, _ | .intrinsic, _ => Query.typeOfSymbol c id
    | .function, none => return Intrinsic.void.typeId
    | _, some reference => Query.typeOfReference c reference
    | _, none => return none

/-- The first of some symbols that is known and no intrinsic type. -/
def firstDeclared (c : Codebase) (ids : List SymbolId) : Query (Option SymbolId) := do
  return ((← get).select c ids (·.kind ≠ .intrinsic)).head?.map (·.1)

/-- The type of what an identifier refers to, among the members of a base if one is given. -/
def referenceType (k : Inference) (c : Codebase) (identifier : NodeId) (base : Option NodeId) :
    Query (Option TypeId) := do
  let some name ← c.tree.nameOf identifier | return none
  let symbols ← match base with
    | some base =>
      let some type ← k.typeOf base none | return none
      if (← Query.typeInfo type).isIntrinsic then return none
      k.membersNamed c type name
    | none => k.matching c identifier name .everything
  let some symbol ← firstDeclared c symbols | return none
  k.declaredType c symbol

/-- The type of a constant. -/
def literalType : Literal → Intrinsic
  | .none => .any
  | .bool _ => .bool
  | .int _ | .hex _ => .int
  | .float _ => .float
  | .string _ => .string

/-- Whether an operator gives a truth value. -/
def isLogical : BinaryOperator → Bool
  | .and | .or | .equal | .notEqual | .greater | .greaterOrEqual | .less | .lessOrEqual => true
  | .add | .divide | .modulus | .multiply | .subtract => false

/-- The type of an arithmetic operation: a text if one is added to something, a fraction if one of
the operands is one, and else an integer. -/
def arithmeticType (operator : BinaryOperator) (left right : Option TypeId) : TypeId :=
  let isOne (kind : Intrinsic) : Bool := left = some kind.typeId || right = some kind.typeId
  if operator = .add && isOne .string then Intrinsic.string.typeId
  else if isOne .float then Intrinsic.float.typeId
  else Intrinsic.int.typeId

/-- Whether a declared type is left to the initial value. -/
def isVar (c : Codebase) (typeName : NodeId) : Outcome Bool := do
  match ← c.tree.form typeName with
  | .typeName _ isArray =>
    return !isArray && (← c.tree.nameOf typeName).any (Text.sameFolded "var")
  | _ => return false

/-- The type of a node from the types of its parts. -/
def formType (k : Inference) (c : Codebase) (node : NodeId) (base : Option NodeId) :
    Query (Option TypeId) := do
  match ← c.tree.form node with
  | .script .. =>
    match c.symbols.symbolOf node with
    | some symbol => Query.typeOfSymbol c symbol
    | none => return none
  | .function header _ =>
    match ← c.tree.form header with
    | .functionHeader (some returnType) _ _ _ => Query.typeOfTypeName c returnType
    | _ => return Intrinsic.void.typeId
  | .variableDefinition typeName _ _ _ | .property typeName _ _ _ _ | .parameter typeName _ _ _
  | .cast _ typeName | .newStruct typeName | .newArray typeName _ =>
    Query.typeOfTypeName c typeName
  | .declaration typeName _ initial =>
    if ← isVar c typeName then
      match initial with
      | some initial => k.typeOf initial none
      | none => return none
    else Query.typeOfTypeName c typeName
  | .reference identifier | .call identifier _ => k.referenceType c identifier base
  | .memberAccess base access => k.typeOf access base
  | .index base _ =>
    match ← k.typeOf base none with
    | some array => Query.elementType c array
    | none => return none
  | .argument _ value | .literalExpression value => k.typeOf value none
  | .literal value => return (literalType value).typeId
  | .typeTest .. => return Intrinsic.bool.typeId
  | .unary .not _ => return Intrinsic.bool.typeId
  | .unary .negate inner => k.typeOf inner none
  | .binary left operator right =>
    if isLogical operator then return Intrinsic.bool.typeId
    let left ← k.typeOf left none
    let right ← k.typeOf right none
    return arithmeticType operator left right
  | _ => return none

/-- The type of a node, which is pending in the meantime. A pending node has no type. -/
def findType (k : Inference) (c : Codebase) (node : NodeId) (base : Option NodeId) :
    Query (Option TypeId) := do
  if (← get).pending.contains node then return none
  modify fun s => { s with pending := node :: s.pending }
  let type ← k.formType c node base
  modify fun s => { s with pending := s.pending.erase node }
  return type

/-! ## Answers from answers -/

/-- Answers that need at most `depth` questions inside each other. -/
def atDepth (c : Codebase) : Nat → Inference
  | 0 => ⟨fun _ _ => throw .unbounded, fun _ => throw .unbounded⟩
  | depth + 1 =>
    { typeOf := fun node base => (atDepth c depth).findType c node base
      symbolsFor := fun identifier => (atDepth c depth).findSymbols c identifier }

end Inference

namespace Codebase

/-- How many questions about names and types can be inside each other. A question about a type makes
its node pending, and between two such questions no identifier is asked for twice. -/
def questionDepth (c : Codebase) : Nat := (c.tree.size + 2) * (c.tree.size + 2)

/-- The answers about a codebase. -/
def inference (c : Codebase) : Inference := .atDepth c c.questionDepth

end Codebase

namespace Query

/-- The type of an expression or declaration. -/
def typeOf (c : Codebase) (node : NodeId) : Query (Option TypeId) := c.inference.typeOf node none

/-- The symbols that an identifier can refer to. -/
def symbolsFor (c : Codebase) (identifier : NodeId) : Query Search :=
  c.inference.symbolsFor identifier

def isStaticAccess (c : Codebase) (node : NodeId) : Query Bool :=
  c.inference.isStaticAccess c node

def available (c : Codebase) (node : NodeId) (kinds : FlagSet MemberKind) (filter : Filter) :
    Query Search :=
  c.inference.available c node kinds filter

def matching (c : Codebase) (node : NodeId) (name : String) (filter : Filter) :
    Query (List SymbolId) :=
  c.inference.matching c node name filter

def declaredType (c : Codebase) (id : SymbolId) : Query (Option TypeId) :=
  c.inference.declaredType c id

end Query

end PapyrusAnalysis
