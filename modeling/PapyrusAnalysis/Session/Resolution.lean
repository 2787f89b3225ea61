import PapyrusAnalysis.QualifiedName
import PapyrusAnalysis.Session.ArrayMembers
import PapyrusAnalysis.Session.Basic

/-!
# Resolving types

A type is found by its name, by the symbol that it belongs to, or at the node that writes its name.
A script's type is made together with the types of its structs.

## Main definitions

* `Query.resolveType`: a type by its name, looked for in some namespaces first.
* `Query.typeOfSymbol`: the type that a symbol stands for.
* `Query.arrayTypeFor`, `Query.elementType`: from elements to arrays and back.
* `Query.scriptHierarchy`: a script and the scripts that it extends.
* `Query.typeOfTypeName`: the type that a node of a tree names.
-/

namespace PapyrusAnalysis

namespace Session

/-- Makes the types of some structs of a script, and adds them to a table by name. -/
def addStructTypes (script : TypeId) :
    List (SymbolId × Symbol) → Registry String TypeId → Session → Registry String TypeId × Session
  | [], structs, s => (structs, s)
  | (id, symbol) :: rest, structs, s =>
    let type := s.types.nextId
    addStructTypes script rest (structs.insert (Text.lowercase symbol.name) type)
      { s with
        types := s.types.add symbol.name symbol.qualifiedName id (.struct script)
        named := s.named.insert (Text.lowercase symbol.qualifiedName) type }

/-- Makes the type of a script and those of its structs. -/
def addScriptType (s : Session) (id : SymbolId) (symbol : Symbol)
    (structs : List (SymbolId × Symbol)) : TypeId × Session :=
  let script := s.types.nextId
  let (table, s) := addStructTypes script structs ∅
    { s with
      types := s.types.add symbol.name symbol.qualifiedName id (.script ∅)
      named := s.named.insert (Text.lowercase symbol.qualifiedName) script }
  (script, { s with
    types := ⟨s.types.types.modify script.index fun info => { info with form := .script table }⟩ })

/-- Those among some symbols that are known and satisfy a condition. -/
def select (s : Session) (c : Codebase) (ids : List SymbolId) (wanted : Symbol → Bool) :
    List (SymbolId × Symbol) :=
  ids.filterMap fun id =>
    match s.symbol? c id with
    | some symbol => if wanted symbol then some (id, symbol) else none
    | none => none

/-- Those among some symbols that are known and satisfy a condition, under the numbers that they
carry. -/
def selectNumbered (s : Session) (c : Codebase) (ids : List SymbolId) (wanted : Symbol → Bool) :
    List (SymbolId × Symbol) :=
  (s.select c ids wanted).map fun entry => (entry.2.id, entry.2)

end Session

namespace Query

/-! ## Types of symbols -/

/-- The type of a script, or the array type that a script symbol belongs to. -/
def scriptType (c : Codebase) (id : SymbolId) : Query (Option TypeId) := do
  let some symbol ← symbol? c id | return none
  if symbol.kind ≠ .script then return none
  let s ← get
  if symbol.isGeneratedArray then return s.arraySymbols.find? id
  if let some type := s.named.find? (Text.lowercase symbol.qualifiedName) then return type
  let (type, s) := s.addScriptType id symbol (s.selectNumbered c symbol.members (·.kind = .struct))
  set s
  return type

/-- The type of a struct, which is made with that of its script. -/
def structType (c : Codebase) (id : SymbolId) : Query (Option TypeId) := do
  let some symbol ← symbol? c id | return none
  let some parent := symbol.parent | return none
  let key := Text.lowercase symbol.qualifiedName
  if let some type := (← get).named.find? key then return type
  let some _ ← scriptType c parent | return none
  return (← get).named.find? key

/-- The type that a symbol stands for. -/
def typeOfSymbol (c : Codebase) (id : SymbolId) : Query (Option TypeId) := do
  let some symbol ← symbol? c id | return none
  match symbol.kind with
  | .script => scriptType c id
  | .struct => structType c id
  | .intrinsic => return TypeTable.intrinsic? symbol.name
  | _ => return none

/-! ## Types by name -/

/-- The type with a full name: an intrinsic type, a script, or a struct of the script that is the
namespace of the name. -/
def resolveFullName (c : Codebase) (name : String) : Query (Option TypeId) := do
  if let some type := TypeTable.intrinsic? name then return type
  if let some script := c.scripts.find? name then return ← scriptType c script
  let parts := QualifiedName.parse name
  if parts.container.isEmpty then return none
  let some script := c.scripts.find? parts.container | return none
  let some type ← scriptType c script | return none
  match (← typeInfo type).form with
  | .script structs => return structs.find? (Text.lowercase parts.name)
  | _ => return none

/-- The type with a name in the first of some namespaces that has it, or else without one. -/
def resolveType (c : Codebase) (name : String) : List String → Query (Option TypeId)
  | [] => resolveFullName c name
  | container :: rest => do
    if let some type ← resolveFullName c (qualify container name) then return type
    resolveType c name rest

/-- The array type whose elements have the type with a name. -/
def arrayTypeFor (c : Codebase) (element : String) : Query (Option TypeId) := do
  let some _ ← resolveType c element [] | return none
  let key := Text.lowercase element
  if let some type := (← get).arrays.find? key then return type
  let s ← get
  let (symbol, synthetic) ← (ArrayMembers.create element).run s.synthetic
  let name := ArrayMembers.arrayName element
  let type := s.types.nextId
  set { s with
    types := s.types.add name name symbol (.array element)
    synthetic := synthetic
    arrays := s.arrays.insert key type
    arraySymbols := s.arraySymbols.insert symbol type }
  return type

/-- The type of the elements of an array type. -/
def elementType (c : Codebase) (id : TypeId) : Query (Option TypeId) := do
  match (← typeInfo id).form with
  | .array element => resolveType c element []
  | _ => return none

/-- The type that is found as such, or the array type of it. -/
def orArray (c : Codebase) (isArray : Bool) (type : TypeId) : Query (Option TypeId) := do
  if isArray then arrayTypeFor c (← typeInfo type).qualifiedName else return type

/-- The type that a symbol without a declaration was given. -/
def typeOfReference (c : Codebase) (reference : TypeReference) : Query (Option TypeId) := do
  let some type ← resolveType c reference.name [] | return none
  orArray c reference.isArray type

/-! ## Scripts and the scripts that they extend -/

/-- A type and the scripts that it extends, up to one that is among `seen`. -/
def hierarchyFrom (c : Codebase) : Nat → List TypeId → TypeId → Query (List TypeId)
  | 0, _, _ => throw .unbounded
  | fuel + 1, seen, type => do
    if seen.contains type then return []
    let info ← typeInfo type
    let some name := (← symbol? c info.symbol).bind (·.extendedScript) | return [type]
    let some next ← resolveType c name [] | return [type]
    if (← typeInfo next).isScript then
      return type :: (← hierarchyFrom c fuel (type :: seen) next)
    else return [type]

/-- A script followed by the scripts that it extends. Each of the latter belongs to another symbol
of the codebase, which bounds their number. -/
def scriptHierarchy (c : Codebase) (type : TypeId) : Query (List TypeId) :=
  hierarchyFrom c (c.symbols.size + 2) [] type

/-! ## Types in a tree -/

/-- The symbol of the script around a node. -/
def scriptAround (c : Codebase) (node : NodeId) : Query (Option SymbolId) := do
  return (← c.tree.scriptOf node).bind c.symbols.symbolOf

/-- The names of the scripts that a script imports. -/
def importNames (c : Codebase) (script : Symbol) : Query (List String) := do
  let s ← get
  return script.imports.filterMap fun id => (s.symbol? c id).bind (·.importedScript)

/-- Whether a name looks like the name of a script, or of something in it, without the namespace of
the script. Both names are in lower case. -/
def refersInto (script : QualifiedName) (name : String) : Bool :=
  (QualifiedName.parse name).name = script.name
    || (script.name ++ ":").toList.isPrefixOf name.toList

/-- The type with a name as it is meant at a node. The name is looked for in the scripts that the
script around the node extends, then in its imports, and in its own namespace if the name looks
like that of the script or of something in it. -/
def resolveAt (c : Codebase) (node : NodeId) (name : String) : Query (Option TypeId) := do
  let script ← scriptAround c node
  if let some script := script then
    if let some type ← scriptType c script then
      let hierarchy ← scriptHierarchy c type
      let namespaces ← hierarchy.mapM fun t => return (← typeInfo t).qualifiedName
      if let some type ← resolveType c name namespaces then return type
  let symbol ← match script with
    | some script => symbol? c script
    | none => pure none
  let imports ← match symbol with
    | some symbol => importNames c symbol
    | none => pure []
  if let some type ← resolveType c name imports then return type
  let some symbol := symbol | return none
  let current := QualifiedName.parse (Text.lowercase symbol.name)
  if refersInto current (Text.lowercase name) then resolveType c name [current.container]
  else return none

/-- The type that a type name in a tree stands for. -/
def typeOfTypeName (c : Codebase) (node : NodeId) : Query (Option TypeId) := do
  let .typeName _ isArray ← c.tree.form node | return none
  let some name ← c.tree.nameOf node | return none
  let some type ← resolveAt c node name | return none
  orArray c isArray type

end Query

end PapyrusAnalysis
