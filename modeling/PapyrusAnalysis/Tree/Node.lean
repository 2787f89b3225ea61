import PapyrusAnalysis.Modifier
import PapyrusAnalysis.Text.Range

/-!
# Syntax nodes

A syntax tree is a table of nodes that refer to each other by number. The `Form` of a node says
which phrase of the language it stands for and which nodes are its parts.

## Main definitions

* `Form`: the phrases of the language.
* `Form.children`: the parts of a phrase in source order.
* `Form.isContainer`: whether a phrase opens a scope for declarations.
-/

namespace PapyrusAnalysis

/-- The number of a node in its tree. -/
structure NodeId where
  index : Nat
deriving DecidableEq, Repr, Inhabited

/-- The first number that no node can have. -/
def NodeId.limit : Nat := Nat.pow 2 32

/-- A constant as written in a script. -/
inductive Literal where
  | none
  | bool (value : Bool)
  | int (value : Int)
  | hex (value : Int)
  | float (value : Float)
  | string (value : String)
deriving DecidableEq, Repr

/-- An operator between two operands. -/
inductive BinaryOperator where
  | add
  | and
  | or
  | equal
  | greater
  | greaterOrEqual
  | less
  | lessOrEqual
  | notEqual
  | divide
  | modulus
  | multiply
  | subtract
deriving DecidableEq, Repr

/-- An operator before one operand. -/
inductive UnaryOperator where
  | negate
  | not
deriving DecidableEq, Repr

/-- The plain assignment, and those that combine it with an arithmetic operator. -/
inductive AssignmentOperator where
  | assign
  | add
  | subtract
  | multiply
  | divide
  | modulus
deriving DecidableEq, Repr

def BinaryOperator.label : BinaryOperator → String
  | .add => "Add"
  | .and => "BooleanAnd"
  | .or => "BooleanOr"
  | .equal => "CompareEqual"
  | .greater => "CompareGreaterThan"
  | .greaterOrEqual => "CompareGreaterThanOrEqual"
  | .less => "CompareLessThan"
  | .lessOrEqual => "CompareLessThanOrEqual"
  | .notEqual => "CompareNotEqual"
  | .divide => "Divide"
  | .modulus => "Modulus"
  | .multiply => "Multiply"
  | .subtract => "Subtract"

def UnaryOperator.label : UnaryOperator → String
  | .negate => "Negate"
  | .not => "Not"

def AssignmentOperator.label : AssignmentOperator → String
  | .assign => "Assign"
  | .add => "Add"
  | .subtract => "Subtract"
  | .multiply => "Multiply"
  | .divide => "Divide"
  | .modulus => "Modulus"

/-- A phrase of the language with the numbers of its parts. A declaration always has an identifier;
one whose name is missing has an identifier with the empty name. -/
inductive Form where
  | script (header : NodeId) (imports definitions : List NodeId)
  | scriptHeader (identifier : NodeId) (extended : Option NodeId) (modifiers : FlagSet Modifier)
  | importLine (identifier : NodeId)
  | identifier (name : String)
  | typeName (identifier : NodeId) (isArray : Bool)
  | customEvent (identifier : NodeId)
  | event (header : NodeId) (statements : List NodeId)
  | eventHeader (identifier parameters : NodeId)
  | function (header : NodeId) (statements : List NodeId)
  | functionHeader (returnType : Option NodeId) (identifier parameters : NodeId)
      (modifiers : FlagSet Modifier)
  | parameterList (parameters : List NodeId)
  | parameter (typeName identifier : NodeId) (default : Option NodeId) (isOptional : Bool)
  | group (identifier : NodeId) (modifiers : FlagSet Modifier) (properties : List NodeId)
  | property (typeName identifier : NodeId) (initial : Option NodeId) (functions : List NodeId)
      (modifiers : FlagSet Modifier)
  | state (identifier : NodeId) (isAuto : Bool) (definitions : List NodeId)
  | struct (identifier : NodeId) (members : List NodeId)
  | variableDefinition (typeName identifier : NodeId) (initial : Option NodeId)
      (modifiers : FlagSet Modifier)
  | assignment (left : Option NodeId) (operator : AssignmentOperator) (right : Option NodeId)
  | declaration (typeName identifier : NodeId) (initial : Option NodeId)
  | expressionStatement (expression : NodeId)
  | ifChain (branches : List NodeId)
  | ifBranch (condition : Option NodeId) (statements : List NodeId)
  | returnStatement (value : Option NodeId)
  | whileLoop (condition : NodeId) (statements : List NodeId)
  | index (base position : NodeId)
  | binary (left : NodeId) (operator : BinaryOperator) (right : NodeId)
  | cast (inner typeName : NodeId)
  | call (identifier : NodeId) (arguments : List NodeId)
  | argument (identifier : Option NodeId) (value : NodeId)
  | reference (identifier : NodeId)
  | typeTest (inner typeName : NodeId)
  | literalExpression (value : NodeId)
  | memberAccess (base access : NodeId)
  | newArray (typeName length : NodeId)
  | newStruct (typeName : NodeId)
  | unary (operator : UnaryOperator) (inner : NodeId)
  | literal (value : Literal)
deriving DecidableEq, Repr

namespace Form

/-- The parts of a phrase in source order. -/
def children : Form → List NodeId
  | script header imports definitions => header :: imports ++ definitions
  | scriptHeader name extended _ => name :: extended.toList
  | importLine name => [name]
  | identifier _ => []
  | typeName name _ => [name]
  | customEvent name => [name]
  | event header statements => header :: statements
  | eventHeader name parameters => [name, parameters]
  | function header statements => header :: statements
  | functionHeader returnType name parameters _ =>
    returnType.toList ++ [name, parameters]
  | parameterList parameters => parameters
  | parameter type name default _ => type :: name :: default.toList
  | group name _ properties => name :: properties
  | property type name initial functions _ =>
    type :: name :: initial.toList ++ functions
  | state name _ definitions => name :: definitions
  | struct name members => name :: members
  | variableDefinition type name initial _ => type :: name :: initial.toList
  | assignment left _ right => left.toList ++ right.toList
  | declaration type name initial => type :: name :: initial.toList
  | expressionStatement expression => [expression]
  | ifChain branches => branches
  | ifBranch condition statements => condition.toList ++ statements
  | returnStatement value => value.toList
  | whileLoop condition statements => condition :: statements
  | index base position => [base, position]
  | binary left _ right => [left, right]
  | cast inner type => [inner, type]
  | call name arguments => name :: arguments
  | argument name value => name.toList ++ [value]
  | reference name => [name]
  | typeTest inner type => [inner, type]
  | literalExpression value => [value]
  | memberAccess base access => [base, access]
  | newArray type length => [type, length]
  | newStruct type => [type]
  | unary _ inner => [inner]
  | literal _ => []

def isScript : Form → Bool
  | script .. => true
  | _ => false

/-- Whether a phrase opens a scope for the declarations in it. -/
def isContainer : Form → Bool
  | script .. | property .. | event .. | function .. | ifBranch .. | state .. | struct ..
  | whileLoop .. => true
  | _ => false

/-- The name of the phrase as messages give it. -/
def label : Form → String
  | script .. => "Script"
  | scriptHeader .. => "ScriptHeader"
  | importLine .. => "Import"
  | identifier .. => "Identifier"
  | typeName .. => "TypeIdentifier"
  | customEvent .. => "CustomEventDefinition"
  | event .. => "EventDefinition"
  | eventHeader .. => "EventHeader"
  | function .. => "FunctionDefinition"
  | functionHeader .. => "FunctionHeader"
  | parameterList .. => "FunctionParameters"
  | parameter .. => "FunctionParameter"
  | group .. => "GroupDefinition"
  | property .. => "PropertyDefinition"
  | state .. => "StateDefinition"
  | struct .. => "StructDefinition"
  | variableDefinition .. => "VariableDefinition"
  | assignment .. => "AssignmentStatement"
  | declaration .. => "DeclareStatement"
  | expressionStatement .. => "ExpressionStatement"
  | ifChain .. => "IfStatement"
  | ifBranch .. => "IfStatementBody"
  | returnStatement .. => "ReturnStatement"
  | whileLoop .. => "WhileStatement"
  | index .. => "ArrayIndexExpression"
  | binary .. => "BinaryOperationExpression"
  | cast .. => "CastExpression"
  | call .. => "FunctionCallExpression"
  | argument .. => "FunctionCallExpressionParameter"
  | reference .. => "IdentifierExpression"
  | typeTest .. => "IsExpression"
  | literalExpression .. => "LiteralExpression"
  | memberAccess .. => "MemberAccessExpression"
  | newArray .. => "NewArrayExpression"
  | newStruct .. => "NewStructExpression"
  | unary .. => "UnaryOperationExpression"
  | literal .. => "Literal"

end Form

/-- A phrase, where it stands, and the node that it is a part of. -/
structure Node where
  form : Form
  range : Range
  parent : Option NodeId
  /-- The kinds of members that names at and below this node may refer to, if they are limited. -/
  scope : Option (FlagSet MemberKind)
deriving DecidableEq, Repr

end PapyrusAnalysis
