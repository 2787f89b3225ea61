import PapyrusAnalysis.Call
import PapyrusAnalysis.Diagnostic.Basic
import PapyrusAnalysis.Session.Assignment

/-!
# Validation

Validation walks over a part of a tree and reports names and types that do not exist, values that
do not fit their places, operators that do not fit their operands, and calls that do not fit the
parameters of what they call.

## Main definitions

* `Check`: an activity that asks questions and reports what is wrong.
* `BinaryOperator.accepts`, `AssignmentOperator.accepts`: the operands that an operator takes.
* `Check.node`: the validation of a single node.
* `Check.tree`: the validation of everything at and below a node.
* `Query.validate`: the same as a question in a session.
-/

namespace PapyrusAnalysis

/-! ## Operators -/

/-- Whether an operator takes operands of two types. Operands of unknown type are taken. -/
def BinaryOperator.accepts (operator : BinaryOperator) : Option TypeId → Option TypeId → Bool
  | some left, some right =>
    let numeric := TypeTable.isNumeric left && TypeTable.isNumeric right
    match operator with
    | .greater | .greaterOrEqual | .less | .lessOrEqual => numeric
    | .add =>
      left = Intrinsic.string.typeId || right = Intrinsic.string.typeId || numeric
    | .divide | .multiply | .modulus | .subtract => numeric
    | .and | .or | .equal | .notEqual => true
  | _, _ => true

/-- Whether an assignment operator takes a place and a value of two types. An assignment that
combines nothing takes everything, and unknown types are taken. -/
def AssignmentOperator.accepts (operator : AssignmentOperator) :
    Option TypeId → Option TypeId → Bool
  | some left, some right =>
    let numeric := TypeTable.isNumeric left && TypeTable.isNumeric right
    match operator with
    | .assign => true
    | .add => left = Intrinsic.string.typeId || numeric
    | .subtract | .multiply | .divide | .modulus => numeric
  | _, _ => true

/-! ## Activities -/

/-- What a validation has come to. -/
structure Progress where
  session : Session
  report : Report := []
  /-- The nodes validated so far, the last one first. -/
  validated : List NodeId := []
deriving DecidableEq, Repr

/-- An activity that asks questions and reports what is wrong. -/
abbrev Check (α : Type) := StateT Progress Outcome α

/-- A reason for which a node cannot be validated. -/
inductive Obstacle where
  /-- What a call names is neither a function nor an event. -/
  | notCallable (name : String)
  /-- Something other than an argument stands among the arguments of a call. -/
  | notAnArgument (found : Form)

def Obstacle.message : Obstacle → String
  | .notCallable name => s!"'{name}' is not a function or event"
  | .notAnArgument found =>
    "expected FunctionCallExpressionParameter node, found " ++ found.label

namespace Check

variable {α : Type}

/-- Asks a question in the session of the validation. -/
def ask (question : Query α) : Check α := do
  let p ← get
  let (answer, session) ← question.run p.session
  set { p with session := session }
  return answer

/-- Reports a message about a node. -/
def report (c : Codebase) (node : NodeId) (message : Message) (arguments : List String) :
    Check Unit := do
  let diagnostic ← Diagnostic.about (← c.tree.range node) message arguments
  modify fun p => { p with report := p.report ++ [diagnostic] }

/-- Reports that a node cannot be validated. What lies below it is validated all the same. -/
def obstruct (c : Codebase) (node : NodeId) (obstacle : Obstacle) : Check Step := do
  report c node .checkFailed [obstacle.message]
  return .descend

/-- Reports a message about a node and leaves out what lies below it. -/
def reject (c : Codebase) (node : NodeId) (message : Message) : Check Step := do
  report c node message []
  return .skip

def typeName (type : TypeId) : Check String := do return (← ask (Query.typeInfo type)).name

/-! ## Types of values -/

/-- Reports at a node that a value does not fit a place, with the name of the value's type before
that of the place. What is unknown fits. -/
def fits (c : Codebase) (node : NodeId) (message : Message) :
    Option TypeId → Option TypeId → Check Unit
  | some place, some value => do
    unless ← ask (Query.isAssignable c place value) do
      report c node message [← typeName value, ← typeName place]
  | _, _ => return

/-- Reports at a node that an operator does not take its operands. -/
def operatorMismatch (c : Codebase) (node : NodeId) (label : String) :
    Option TypeId → Option TypeId → Check Unit
  | some left, some right => do
    report c node .operatorNotApplicable [label, ← typeName left, ← typeName right]
  | _, _ => return

/-- Validates the initial value of a local variable. -/
def initialValue (c : Codebase) (typeName value : NodeId) : Check Step := do
  let place ← ask (Query.typeOfTypeName c typeName)
  let type ← ask (Query.typeOf c value)
  fits c value .notAssignable place type
  return .descend

/-- Validates the operands of an operator. -/
def operands (c : Codebase) (node left : NodeId) (operator : BinaryOperator) (right : NodeId) :
    Check Step := do
  let left ← ask (Query.typeOf c left)
  let right ← ask (Query.typeOf c right)
  unless operator.accepts left right do
    operatorMismatch c node operator.label left right
  return .descend

/-! ## Names -/

/-- Validates the name of a type. -/
def nameOfType (c : Codebase) (node : NodeId) : Check Step := do
  if (← ask (Query.typeOfTypeName c node)).isNone then
    report c node .cannotFindName [(← c.tree.nameOf node).getD ""]
  return .skip

/-- Whether a node is a name that stands for nothing declared elsewhere: that of a group or state,
or the one that an argument gives for its parameter. -/
def isLabel (node : NodeId) : Option Form → Bool
  | some (.group ..) | some (.state ..) => true
  | some (.argument (some identifier) _) => identifier = node
  | _ => false

/-- Whether some script lies in a namespace. -/
def isNamespace (c : Codebase) (name : String) : Bool :=
  c.scripts.names.any fun script => (Text.lowercase script).startsWith (Text.lowercase name ++ ":")

/-- Whether a node is the name in an import of a whole namespace. -/
def importsNamespace (c : Codebase) (name : String) : Option Form → Bool
  | some (.importLine _) => isNamespace c name
  | _ => false

/-- Whether a symbol is a local variable whose declaration comes after a node. -/
def isDeclaredAfter (c : Codebase) (id : SymbolId) (node : NodeId) : Check Bool := do
  let some symbol ← ask (Query.symbol? c id) | return false
  unless symbol.kind = .var do return false
  unless ← ask (Query.isBlockScoped c id) do return false
  let some declaration := symbol.declaration | return false
  return (← c.tree.range node).stop ≤ (← c.tree.range declaration).start

/-- The phrase that a node is a part of. -/
def phraseAround (c : Codebase) (node : NodeId) : Outcome (Option Form) := do
  match ← c.tree.parent node with
  | some parent => return some (← c.tree.form parent)
  | none => return none

/-- Validates an identifier. -/
def identifier (c : Codebase) (node : NodeId) (name : String) : Check Step := do
  let around ← phraseAround c node
  if isLabel node around then return .descend
  match (← ask (Query.symbolsFor c node)).symbols with
  | [] =>
    unless importsNamespace c name around do
      report c node .cannotFindName [name]
  | first :: _ =>
    if ← isDeclaredAfter c first node then
      report c node .usedBeforeDeclaration [name]
  return .descend

/-! ## Assignments -/

/-- Whether the value of a place may change. A place without a name, such as an element of an
array, has a value that may. -/
def isWritablePlace (c : Codebase) (place : NodeId) : Check Bool := do
  match ← c.tree.assignedName place with
  | some name => ask (Query.isWritable c name)
  | none => return true

/-- Validates the types of the two sides of an assignment. -/
def sides (c : Codebase) (node left : NodeId) (operator : AssignmentOperator) (right : NodeId) :
    Check Step := do
  let place ← ask (Query.typeOf c left)
  let value ← ask (Query.typeOf c right)
  if operator = .assign then
    fits c right .notAssignable place value
  else unless operator.accepts place value do
    operatorMismatch c node operator.label place value
  return .descend

/-- Validates an assignment. Nothing below one without a place or a value is validated. -/
def assignment (c : Codebase) (node : NodeId) (left : Option NodeId)
    (operator : AssignmentOperator) (right : Option NodeId) : Check Step := do
  let some place := left | reject c node .leftHandSideExpected
  if !(← c.tree.isAssignable place) then return ← reject c node .leftHandSideNotAssignable
  if !(← isWritablePlace c place) then return ← reject c node .leftHandSideReadOnly
  let some value := right | reject c node .rightHandSideExpected
  sides c node place operator value

/-! ## Calls -/

/-- The parameters of what a symbol stands for, if it can be called. A symbol that is not known
has none. -/
def parametersOf (c : Codebase) (id : SymbolId) :
    Check (Option (Except Obstacle (List Parameter))) := do
  let some symbol ← ask (Query.symbol? c id) | return none
  unless symbol.kind = .function || symbol.kind = .event do
    return some (.error (.notCallable symbol.name))
  let s := (← get).session
  return some (.ok (symbol.parameters.map fun p => .ofSymbol p (s.symbol? c p)))

/-- The arguments that some nodes stand for. -/
def argumentsOf (c : Codebase) : List NodeId → Outcome (Except Obstacle (List Argument))
  | [] => return .ok []
  | node :: rest => do
    match ← c.tree.form node with
    | .argument identifier value =>
      let name ← match identifier with
        | some identifier => c.tree.nameOf identifier
        | none => pure none
      return (← argumentsOf c rest).map (⟨node, name, value⟩ :: ·)
    | found => return .error (.notAnArgument found)

/-- The type of a parameter. -/
def parameterType (c : Codebase) (id : SymbolId) : Query (Option TypeId) := do
  let some symbol ← Query.symbol? c id | return none
  let form ← match symbol.declaration with
    | some declaration => some <$> c.tree.form declaration
    | none => pure none
  match form with
  | some (.parameter typeName _ _ _) => Query.typeOfTypeName c typeName
  | _ => Query.declaredType c id

/-- Validates an argument for a parameter, where `below` validates its value. -/
def passed (c : Codebase) (below : NodeId → Check Unit) (argument : Argument)
    (parameter : Parameter) : Check Unit := do
  below argument.value
  let place ← ask (parameterType c parameter.symbol)
  let value ← ask (Query.typeOf c argument.value)
  fits c argument.node .argumentNotAssignable place value

/-- Validates one pairing of a call. -/
def pairing (c : Codebase) (below : NodeId → Check Unit) (call : NodeId) : Pairing → Check Unit
  | .passed argument parameter => passed c below argument parameter
  | .missing => report c call .wrongNumberOfArguments []
  | .unknownName argument name => report c argument.node .noSuchOptionalParameter [name]
  | .reusedName argument => report c argument.node .optionalNameReused []

/-- Validates the arguments of a call for some parameters. -/
def arguments (c : Codebase) (below : NodeId → Check Unit) (node : NodeId)
    (parameters : List Parameter) (arguments : List NodeId) : Check Step := do
  if parameters.length < arguments.length then
    return ← reject c node .wrongNumberOfArguments
  match ← argumentsOf c arguments with
  | .error obstacle => obstruct c node obstacle
  | .ok arguments =>
    (Call.pair parameters arguments).forM (pairing c below node)
    return .skip

/-- Validates a call, where `below` validates the values of its arguments. -/
def call (c : Codebase) (below : NodeId → Check Unit) (node identifier : NodeId)
    (args : List NodeId) : Check Step := do
  match (← ask (Query.symbolsFor c identifier)).symbols with
  | [] => return .descend
  | callee :: _ =>
    match ← parametersOf c callee with
    | none => return .descend
    | some (.error obstacle) => obstruct c node obstacle
    | some (.ok parameters) => arguments c below node parameters args

/-! ## Nodes and trees -/

/-- Validates what a node says, where `below` validates the values of arguments. -/
def phrase (c : Codebase) (below : NodeId → Check Unit) (node : NodeId) : Check Step := do
  match ← c.tree.form node with
  | .declaration typeName _ (some value) => initialValue c typeName value
  | .typeName .. => nameOfType c node
  | .identifier name => identifier c node name
  | .binary left operator right => operands c node left operator right
  | .assignment left operator right => assignment c node left operator right
  | .call identifier args => call c below node identifier args
  | _ => return .descend

/-- Validates a node and notes that it did. -/
def node (c : Codebase) (below : NodeId → Check Unit) (node : NodeId) : Check Step := do
  modify fun p => { p with validated := node :: p.validated }
  phrase c below node

/-- Validates everything at and below a node, with calls inside each other at most `depth` deep. -/
def within (c : Codebase) : Nat → NodeId → Check Unit
  | 0, _ => throw .unbounded
  | depth + 1, root => c.tree.walk root (node c (within c depth))

/-- Validates everything at and below a node. Calls lie inside each other no deeper than there are
nodes. -/
def tree (c : Codebase) (root : NodeId) : Check Unit := within c (c.tree.size + 1) root

end Check

/-- Validates everything at and below a node in a session, and gives the report with the session
that follows. -/
def Query.validate (c : Codebase) (root : NodeId) : Query Report := do
  let ((), progress) ← (Check.tree c root).run { session := ← get }
  set progress.session
  return progress.report

end PapyrusAnalysis
