import PapyrusAnalysis.Diagnostic.Basic
import PapyrusAnalysis.Symbol.Table
import PapyrusAnalysis.Tree.Walk

/-!
# Binding

Binding finds the declarations of a script and makes a symbol of each. The members of a script come
in source order, followed by those of its groups and states, so that these count as members of the
script. Variables are found at any depth in the bodies of functions and events.

A declared name is also entered in the innermost container around the declaration that keeps such
names. A script keeps no local names: its members are reached through its type.

## Main definitions

* `Binding`: the symbols and diagnostics so far.
* `Binding.script`: binds a script.
* `Binding.ofTree`: the binding of all scripts of a tree.
-/

namespace PapyrusAnalysis

/-- The state of binding. -/
structure Binding where
  symbols : SymbolTable := {}
  report : Report := []
deriving DecidableEq, Repr

/-- A step of binding. -/
abbrev Binder (α : Type) := StateT Binding Outcome α

namespace Binding

/-- The name of a symbol whose declaration has none. -/
def unnamed : String := "<unknown>"

/-- The script that a script without an extended script extends. -/
def rootScript : String := "ScriptObject"

def complain (range : Range) (message : Message) (arguments : List String) : Binder Unit := do
  let diagnostic ← Diagnostic.about range message arguments
  modify fun b => { b with report := b.report ++ [diagnostic] }

def change (id : SymbolId) (f : Symbol → Symbol) : Binder Unit :=
  modify fun b => { b with symbols := b.symbols.update id f }

/-- Makes a symbol that a node declares. -/
def create (kind : SymbolKind) (name : String) (parent : Option SymbolId) (node : NodeId) :
    Binder SymbolId := do
  let b ← get
  let (id, symbols) ← b.symbols.add kind name parent
  set { b with symbols := symbols.declare node id }
  return id

/-- Whether a container keeps names of a kind. -/
def keeps (table : TableKind) (container : Form) : Bool :=
  container.isContainer &&
    match table with
    | .locals => !container.isScript
    | .states | .customEvents => container.isScript

/-- The innermost container around a node that keeps names of a kind. -/
def keeper? (t : Tree) (table : TableKind) (node : NodeId) : Outcome (Option NodeId) := do
  return (← t.ancestors node).find? fun a => (t.node? a).any (keeps table ·.form)

/-- Enters a declared name, or complains if it is taken. -/
def enterName (t : Tree) (table : TableKind) (node : NodeId) (name : String) (id : SymbolId) :
    Binder Unit := do
  if let some container ← keeper? t table node then
    let symbols := (← get).symbols
    if (symbols.names table container).contains (Text.lowercase name) then
      complain (← t.range node) .cannotRedeclare [name]
    else
      modify fun b => { b with symbols := symbols.enter table container name id }

/-- Makes the symbol of a declaration and enters its name in a table, if one is given. Also tells
whether the declaration has a name: without one there is nothing more to bind. -/
def declare (t : Tree) (kind : SymbolKind) (node identifier : NodeId) (parent : Option SymbolId)
    (table : Option TableKind) : Binder (SymbolId × Bool) := do
  let name := (← t.nameOf identifier).getD ""
  let range ← t.range node
  if name.isEmpty then
    complain range .identifierExpected []
    return (← create kind unnamed parent node, false)
  let id ← create kind name parent node
  if let some table := table then
    enterName t table node name id
  return (id, true)

/-- The type that a type name writes. -/
def typeReference? (t : Tree) (node : NodeId) : Outcome (Option TypeReference) := do
  match ← t.form node with
  | .typeName _ isArray => return (← t.nameOf node).map (⟨·, isArray⟩)
  | _ => return none

/-! ## Variables, parameters and functions -/

def variableDefinition (t : Tree) (node : NodeId) (parent : SymbolId) :
    Binder (Option SymbolId) := do
  let .variableDefinition typeName identifier _ modifiers ← t.form node | return none
  let (id, named) ← declare t .var node identifier parent TableKind.locals
  if named then
    let valueType ← typeReference? t typeName
    change id fun s => { s with
      valueType := valueType
      traits := s.traits ∪ .only .const (modifiers.has .const) }
  return id

def localVariable (t : Tree) (node : NodeId) (parent : SymbolId) : Binder Unit := do
  let .declaration typeName identifier _ ← t.form node | return
  let (id, named) ← declare t .var node identifier parent TableKind.locals
  if named then
    let valueType ← typeReference? t typeName
    change id fun s => { s with valueType := valueType }

/-- The constant at a node, if there is one. -/
def literal? (t : Tree) (node : NodeId) : Outcome (Option Literal) := do
  match ← t.form node with
  | .literal value => return value
  | _ => return none

def parameter (t : Tree) (parent : SymbolId) (node : NodeId) : Binder (Option SymbolId) := do
  let .parameter typeName identifier default isOptional ← t.form node | return none
  let (id, named) ← declare t .parameter node identifier parent TableKind.locals
  if named then
    let valueType ← typeReference? t typeName
    let defaultValue ← match default with
      | some default => literal? t default
      | none => pure none
    change id fun s => { s with
      valueType := valueType
      defaultValue := defaultValue
      traits := s.traits ∪ .only .optional isOptional }
  return id

def parameters (t : Tree) (list : NodeId) (parent : SymbolId) : Binder (List SymbolId) := do
  let .parameterList parameters ← t.form list | return []
  parameters.filterMapM (parameter t parent)

def isDeclaration : Form → Bool
  | .declaration .. => true
  | _ => false

/-- Declares the variables at any depth in the statements of a body. -/
def localVariables (t : Tree) (statements : List NodeId) (parent : SymbolId) : Binder Unit := do
  let declarations ← statements.mapM (t.collect isDeclaration ·)
  declarations.flatten.forM (localVariable t · parent)

def function (t : Tree) (node : NodeId) (parent : SymbolId) : Binder (Option SymbolId) := do
  let .function header statements ← t.form node | return none
  let .functionHeader returnType identifier list modifiers ← t.form header | return none
  let (id, named) ← declare t .function node identifier parent TableKind.locals
  if named then
    change id fun s => { s with
      traits := s.traits ∪ .only .global (modifiers.has .global)
        ∪ .only .native (modifiers.has .native) }
    let parameters ← parameters t list id
    let valueType ← match returnType with
      | some returnType => typeReference? t returnType
      | none => pure none
    change id fun s => { s with parameters := parameters, valueType := valueType }
    localVariables t statements id
  return id

def event (t : Tree) (node : NodeId) (parent : SymbolId) : Binder (Option SymbolId) := do
  let .event header statements ← t.form node | return none
  let .eventHeader identifier list ← t.form header | return none
  let (id, named) ← declare t .event node identifier parent none
  if named then
    let parameters ← parameters t list id
    change id fun s => { s with parameters := parameters }
    localVariables t statements id
  return id

/-! ## Properties and groups -/

/-- The name of the function that a node defines. -/
def functionName? (t : Tree) (node : NodeId) : Outcome (Option String) := do
  let .function header _ ← t.form node | return none
  let .functionHeader _ identifier _ _ ← t.form header | return none
  t.nameOf identifier

/-- The first function with a name, in any case of its letters. -/
def accessor? (t : Tree) (name : String) : List NodeId → Outcome (Option NodeId)
  | [] => return none
  | node :: nodes => do
    if (← functionName? t node).any (Text.sameFolded name) then return node
    else accessor? t name nodes

def optionalFunction (t : Tree) (node : Option NodeId) (parent : SymbolId) :
    Binder (Option SymbolId) :=
  match node with
  | some node => function t node parent
  | none => pure none

/-- A property that can be read and not written by its functions is a constant. -/
def property (t : Tree) (parent : SymbolId) (node : NodeId) : Binder (Option SymbolId) := do
  let .property typeName identifier _ functions modifiers ← t.form node | return none
  let (id, named) ← declare t .property node identifier parent TableKind.locals
  if named then
    let getterNode ← accessor? t "get" functions
    let setterNode ← accessor? t "set" functions
    let getter ← optionalFunction t getterNode id
    let setter ← optionalFunction t setterNode id
    let readOnly := getter.isSome && setter.isNone
    let valueType ← typeReference? t typeName
    change id fun s => { s with
      getter := getter
      setter := setter
      valueType := valueType
      traits := s.traits
        ∪ .only .auto (readOnly || modifiers.has .auto || modifiers.has .autoReadOnly)
        ∪ .only .autoReadOnly (readOnly || modifiers.has .autoReadOnly)
        ∪ .only .const (readOnly || modifiers.has .const) }
    let others := functions.filter fun f => some f ≠ getterNode && some f ≠ setterNode
    others.forM fun f => discard (function t f id)
  return id

def group (t : Tree) (node : NodeId) (parent : SymbolId) : Binder (Option SymbolId) := do
  let .group identifier _ properties ← t.form node | return none
  let (id, named) ← declare t .group node identifier parent TableKind.locals
  if named then
    let members ← properties.filterMapM (property t id)
    change id fun s => { s with members := members }
  return id

def struct (t : Tree) (node : NodeId) (parent : SymbolId) : Binder (Option SymbolId) := do
  let .struct identifier members ← t.form node | return none
  let (id, named) ← declare t .struct node identifier parent TableKind.locals
  if named then
    let members ← members.filterMapM (variableDefinition t · id)
    change id fun s => { s with members := members }
  return id

/-! ## Definitions and scripts -/

/-- Binds a definition in a script or state. States can hold definitions themselves; they lie
inside each other at most `depth` deep. -/
def definition (t : Tree) : Nat → SymbolId → NodeId → Binder (Option SymbolId)
  | 0, _, _ => throw .unbounded
  | depth + 1, parent, node => do
    match ← t.form node with
    | .variableDefinition .. => variableDefinition t node parent
    | .property .. => property t parent node
    | .function .. => function t node parent
    | .event .. => event t node parent
    | .customEvent identifier =>
      return (← declare t .customEvent node identifier parent TableKind.customEvents).1
    | .group .. => group t node parent
    | .state identifier isAuto definitions =>
      let (id, named) ← declare t .state node identifier parent TableKind.states
      if named then
        let members ← definitions.filterMapM (definition t depth id)
        change id fun s => { s with
          members := members
          traits := s.traits ∪ .only .auto isAuto }
      return id
    | .struct .. => struct t node parent
    | _ => return none

def importLine (t : Tree) (parent : SymbolId) (node : NodeId) : Binder (Option SymbolId) := do
  let .importLine identifier ← t.form node | return none
  let (id, named) ← declare t .importLine node identifier parent TableKind.locals
  if named then
    let imported ← t.nameOf identifier
    change id fun s => { s with importedScript := imported }
  return id

/-- The members of those among some symbols that are of a kind. -/
def membersWithin (symbols : SymbolTable) (kind : SymbolKind) (ids : List SymbolId) :
    List SymbolId :=
  ids.flatMap fun id =>
    match symbols.get? id with
    | some s => if s.kind = kind then s.members else []
    | none => []

/-- The name of the script that a script extends. -/
def extendedName (name : String) : Option String → Option String
  | some extended => some extended
  | none => if Text.sameFolded name rootScript then none else some rootScript

/-- Binds a script, unless the node is none. -/
def script (t : Tree) (root : NodeId) : Binder (Option SymbolId) := do
  let .script header imports definitions ← t.form root | return none
  let .scriptHeader identifier extended modifiers ← t.form header | return none
  let (id, named) ← declare t .script root identifier none TableKind.locals
  if named then
    let name := (← t.nameOf identifier).getD ""
    modify fun b => { b with symbols := b.symbols.registerScript name id }
    let members ← definitions.filterMapM (definition t (t.size + 1) id)
    let symbols := (← get).symbols
    let members := members ++ membersWithin symbols .group members
      ++ membersWithin symbols .state members
    let imports ← imports.filterMapM (importLine t id)
    let extended ← match extended with
      | some extended => t.nameOf extended
      | none => pure none
    change id fun s => { s with
      members := members
      imports := imports
      extendedScript := extendedName name extended
      traits := s.traits ∪ .only .native (modifiers.has .native)
        ∪ .only .const (modifiers.has .const) }
  return id

/-- Binds some scripts one after another. -/
def scripts (t : Tree) (roots : List NodeId) : Outcome (List (Option SymbolId) × Binding) :=
  (roots.mapM (script t)).run {}

/-- The binding of all scripts of a tree. -/
def ofTree (t : Tree) : Outcome Binding := do return (← scripts t t.roots).2

end Binding

end PapyrusAnalysis
