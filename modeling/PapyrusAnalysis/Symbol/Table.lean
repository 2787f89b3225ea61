import PapyrusAnalysis.Registry
import PapyrusAnalysis.Symbol.Basic
import PapyrusAnalysis.Text.Lowercase

/-!
# Symbol tables

A symbol table numbers its symbols from a base on, so that a second table can go on where a first
one ends. It also knows which node declares which symbol, which names are declared in which
container, and which scripts there are.

## Main definitions

* `SymbolTable.add`, `SymbolTable.get?`, `SymbolTable.update`: entering, reading and changing.
* `SymbolTable.symbolOf`: the symbol that a node declares.
* `SymbolTable.names`: the names that a container holds.
* `SymbolTable.script?`: a script by its name, in any case.
-/

namespace PapyrusAnalysis

/-- The three tables of names that a container can have. Only scripts have the last two. -/
inductive TableKind where
  | locals
  | states
  | customEvents
deriving DecidableEq, Repr

/-- The symbols of some scripts. -/
structure SymbolTable where
  /-- The number of the first symbol. -/
  base : Nat := 0
  symbols : Array Symbol := #[]
  /-- The symbol that each node declares. -/
  declared : Registry NodeId SymbolId := ∅
  /-- The symbols of each container by their names in lower case. -/
  tables : Registry (TableKind × NodeId) (Registry String SymbolId) := ∅
  /-- The scripts by their names in lower case. -/
  scripts : Registry String SymbolId := ∅
deriving DecidableEq, Repr

namespace SymbolTable

def startingAt (base : Nat) : SymbolTable := { base := base }

instance : Inhabited SymbolTable := ⟨startingAt 0⟩

def size (t : SymbolTable) : Nat := t.symbols.size

/-- The number that the next symbol gets. -/
def nextId (t : SymbolTable) : Outcome SymbolId :=
  if t.base + t.size < SymbolId.limit then .ok ⟨t.base + t.size⟩ else .error .symbolsExhausted

/-- Whether a number belongs to a symbol of this table. -/
def owns (t : SymbolTable) (id : SymbolId) : Bool :=
  t.base ≤ id.index && id.index < t.base + t.size

def get? (t : SymbolTable) (id : SymbolId) : Option Symbol :=
  if t.base ≤ id.index then t.symbols[id.index - t.base]? else none

/-- The numbers of all symbols in increasing order. -/
def ids (t : SymbolTable) : List SymbolId := (List.range t.size).map fun i => ⟨t.base + i⟩

/-- Enters a symbol below a parent, whose qualified name its own continues if this table has it. -/
def add (t : SymbolTable) (kind : SymbolKind) (name : String) (parent : Option SymbolId) :
    Outcome (SymbolId × SymbolTable) := do
  let id ← t.nextId
  let qualifiedName := match parent.bind t.get? with
    | some above => above.qualifiedName ++ ":" ++ name
    | none => name
  let symbol : Symbol :=
    { id := id, kind := kind, name := name, parent := parent, qualifiedName := qualifiedName }
  return (id, { t with symbols := t.symbols.push symbol })

/-- Changes a symbol, if the table has it. -/
def update (t : SymbolTable) (id : SymbolId) (change : Symbol → Symbol) : SymbolTable :=
  if t.base ≤ id.index then { t with symbols := t.symbols.modify (id.index - t.base) change } else t

/-- Records that a node declares a symbol. -/
def declare (t : SymbolTable) (node : NodeId) (id : SymbolId) : SymbolTable :=
  { t with declared := t.declared.insert node id }.update id fun s =>
    { s with declaration := some node }

def symbolOf (t : SymbolTable) (node : NodeId) : Option SymbolId := t.declared.find? node

/-- The names of one kind in a container, if any were entered. -/
def names? (t : SymbolTable) (kind : TableKind) (container : NodeId) :
    Option (Registry String SymbolId) :=
  t.tables.find? (kind, container)

def names (t : SymbolTable) (kind : TableKind) (container : NodeId) : Registry String SymbolId :=
  (t.names? kind container).getD ∅

/-- Enters a name in a container. -/
def enter (t : SymbolTable) (kind : TableKind) (container : NodeId) (name : String)
    (id : SymbolId) : SymbolTable :=
  let names := (t.names kind container).insert (Text.lowercase name) id
  { t with tables := t.tables.insert (kind, container) names }

/-- The script with a name, in any case. -/
def script? (t : SymbolTable) (name : String) : Option SymbolId :=
  t.scripts.find? (Text.lowercase name)

/-- Enters a script under its name, unless another one has that name. -/
def registerScript (t : SymbolTable) (name : String) (id : SymbolId) : SymbolTable :=
  if (t.script? name).isSome then t
  else { t with scripts := t.scripts.insert (Text.lowercase name) id }

/-- The names of all scripts in the order of their registration. -/
def scriptNames (t : SymbolTable) : List String :=
  (t.scripts.values.filterMap t.get?).map (·.name)

end SymbolTable

end PapyrusAnalysis
