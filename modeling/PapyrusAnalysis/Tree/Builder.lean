import PapyrusAnalysis.Tree.Basic

/-!
# Building trees

A builder makes the trees of scripts that are given by their content. It invents the text around
that content: every leaf stands one byte behind the leaf made before it, and every other node
covers its parts. So what is built earlier stands earlier. Names get the limits on what they may
refer to that their place in the grammar implies.

## Main definitions

* `Builder`: the tree so far and the offset of the next leaf.
* `Build`: the steps of building.
-/

namespace PapyrusAnalysis

/-- A tree in the making. -/
structure Builder where
  tree : Tree
  /-- The offset of the next leaf. -/
  cursor : Nat
deriving DecidableEq, Repr

/-- A step of building. -/
abbrev Build (α : Type) := StateT Builder Outcome α

namespace Builder

def empty : Builder := ⟨.empty, 0⟩

/-- Adds a node, and gives its number. -/
def place (form : Form) (range : Range) : Build NodeId := do
  let b ← get
  set { b with tree := b.tree.add form range }
  return b.tree.nextId

/-- A leaf at the cursor, at least one byte wide. -/
def leaf (form : Form) (width : Nat) : Build NodeId := do
  let start := (← get).cursor
  let stop ← addOffset start (max width 1)
  let next ← addOffset stop 1
  modify fun b => { b with cursor := next }
  place form ⟨start, stop⟩

/-- The range around some nodes, unless there are none. -/
def around (t : Tree) : List NodeId → Outcome (Option Range)
  | [] => return none
  | id :: rest => do
    let range ← t.range id
    match ← around t rest with
    | none => return some range
    | some others => return some (range.cover others)

/-- A node around its parts, or a leaf if it has none. -/
def composite (form : Form) : Build NodeId := do
  match ← around (← get).tree form.children with
  | some range => place form range
  | none => leaf form 1

def restrict (id : NodeId) (scope : FlagSet MemberKind) : Build Unit :=
  modify fun b => { b with tree := b.tree.restrict id scope }

/-! ## Names and constants -/

/-- The width of a text in bytes, as a 32-bit number. -/
def width (text : String) : Nat := text.utf8ByteSize % offsetLimit

def identifier (name : String) : Build NodeId := leaf (.identifier name) (width name)

/-- An identifier whose name may refer only to some kinds of members. -/
def identifierFor (name : String) (scope : FlagSet MemberKind) : Build NodeId := do
  let id ← identifier name
  restrict id scope
  return id

/-- The element type of a name that ends in a pair of brackets. -/
def elementName? (name : String) : Option String :=
  match name.toList.reverse with
  | ']' :: '[' :: element => some (.ofList element.reverse)
  | _ => none

/-- The name of a type, or of an array type if it ends in a pair of brackets. -/
def typeName (name : String) : Build NodeId := do
  let element? := elementName? name
  let identifier ← identifier (element?.getD name)
  let id ← composite (.typeName identifier element?.isSome)
  restrict id {.struct}
  return id

/-- The width of a constant: a text with its quotes, and one byte for all others. -/
def literalWidth : Literal → Nat
  | .string text => width text + 2
  | _ => 1

def literal (value : Literal) : Build NodeId := leaf (.literal value) (literalWidth value)

def literalExpression (value : Literal) : Build NodeId := do
  composite (.literalExpression (← literal value))

/-! ## Expressions -/

/-- The use of a variable or property by its name. -/
def reference (name : String) : Build NodeId := do
  composite (.reference (← identifierFor name {.property, .var}))

def memberAccess (base access : NodeId) : Build NodeId := composite (.memberAccess base access)

def argument (value : NodeId) : Build NodeId := composite (.argument none value)

def namedArgument (name : String) (value : NodeId) : Build NodeId := do
  composite (.argument (← identifier name) value)

/-- Makes an argument of an expression that is none yet. -/
def asArgument (id : NodeId) : Build NodeId := do
  match ← (← get).tree.form id with
  | .argument .. => return id
  | _ => argument id

def call (name : String) (arguments : List NodeId) : Build NodeId := do
  let identifier ← identifierFor name {.function, .event}
  composite (.call identifier (← arguments.mapM asArgument))

def binary (left : NodeId) (operator : BinaryOperator) (right : NodeId) : Build NodeId :=
  composite (.binary left operator right)

def unary (operator : UnaryOperator) (inner : NodeId) : Build NodeId :=
  composite (.unary operator inner)

def cast (inner : NodeId) (type : String) : Build NodeId := do
  composite (.cast inner (← typeName type))

def typeTest (inner : NodeId) (type : String) : Build NodeId := do
  composite (.typeTest inner (← typeName type))

def index (base position : NodeId) : Build NodeId := composite (.index base position)

def newStruct (type : String) : Build NodeId := do
  composite (.newStruct (← typeName type))

def newArray (element : String) (length : NodeId) : Build NodeId := do
  composite (.newArray (← typeName (element ++ "[]")) length)

/-! ## Statements -/

def declaration (type name : String) (initial : Option NodeId) : Build NodeId := do
  let typeName ← typeName type
  composite (.declaration typeName (← identifier name) initial)

/-- An assignment, either side of which may be missing. -/
def assignment (left : Option NodeId) (operator : AssignmentOperator) (right : Option NodeId) :
    Build NodeId := do
  if let some left := left then
    restrict left {.var, .property}
  composite (.assignment left operator right)

def expressionStatement (expression : NodeId) : Build NodeId :=
  composite (.expressionStatement expression)

def returnStatement (value : Option NodeId) : Build NodeId := composite (.returnStatement value)

/-- A chain of conditions with their statements. The last branch may have no condition. -/
def ifChain (branches : List (Option NodeId × List NodeId)) : Build NodeId := do
  composite (.ifChain (← branches.mapM fun (condition, statements) =>
    composite (.ifBranch condition statements)))

def whileLoop (condition : NodeId) (statements : List NodeId) : Build NodeId :=
  composite (.whileLoop condition statements)

/-! ## Definitions -/

def variableDefinition (type name : String) (modifiers : FlagSet Modifier)
    (initial : Option NodeId) : Build NodeId := do
  let typeName ← typeName type
  composite (.variableDefinition typeName (← identifier name) initial modifiers)

/-- A property with its functions, or one without any. -/
def property (type name : String) (modifiers : FlagSet Modifier) (functions : List NodeId) :
    Build NodeId := do
  let typeName ← typeName type
  composite (.property typeName (← identifierFor name {.property}) none functions modifiers)

def parameter (type name : String) : Build NodeId := do
  let typeName ← typeName type
  composite (.parameter typeName (← identifier name) none false)

def optionalParameter (type name : String) (default : Literal) : Build NodeId := do
  let typeName ← typeName type
  let identifier ← identifier name
  composite (.parameter typeName identifier (← literal default) true)

def function (returnType : Option String) (name : String) (parameters : List NodeId)
    (modifiers : FlagSet Modifier) (statements : List NodeId) : Build NodeId := do
  let returnType ← returnType.mapM typeName
  let identifier ← identifierFor name {.function}
  let parameters ← composite (.parameterList parameters)
  let header ← composite (.functionHeader returnType identifier parameters modifiers)
  composite (.function header statements)

def event (name : String) (parameters statements : List NodeId) : Build NodeId := do
  let identifier ← identifier name
  let parameters ← composite (.parameterList parameters)
  let header ← composite (.eventHeader identifier parameters)
  composite (.event header statements)

def customEvent (name : String) : Build NodeId := do
  composite (.customEvent (← identifier name))

def struct (name : String) (members : List NodeId) : Build NodeId := do
  composite (.struct (← identifier name) members)

def state (name : String) (isAuto : Bool) (definitions : List NodeId) : Build NodeId := do
  composite (.state (← identifier name) isAuto definitions)

def group (name : String) (modifiers : FlagSet Modifier) (properties : List NodeId) :
    Build NodeId := do
  composite (.group (← identifier name) modifiers properties)

def importLine (name : String) : Build NodeId := do
  composite (.importLine (← identifier name))

def script (name : String) (extended : Option String) (modifiers : FlagSet Modifier)
    (imports definitions : List NodeId) : Build NodeId := do
  let identifier ← identifier name
  let extended ← extended.mapM Builder.identifier
  let header ← composite (.scriptHeader identifier extended modifiers)
  composite (.script header imports definitions)

end Builder

end PapyrusAnalysis
