import PapyrusAnalysis.Symbol.Table

/-!
# Types

The types of a session are numbered in the order of their creation. The seven intrinsic types come
first and always have the same numbers.

## Main definitions

* `TypeInfo`: what is known about a type.
* `TypeTable`: the types of a session.
* `TypeTable.intrinsic?`: an intrinsic type by its name, in any case.
-/

namespace PapyrusAnalysis

/-- The number of a type. -/
structure TypeId where
  index : Nat
deriving DecidableEq, Repr, Inhabited

/-- A type that the language provides. -/
inductive Intrinsic where
  | float
  | int
  | bool
  | string
  | var
  | void
  | any
deriving DecidableEq, Repr

namespace Intrinsic

/-- The intrinsic types in the order of their numbers. -/
def all : List Intrinsic := [float, int, bool, string, var, void, any]

def name : Intrinsic → String
  | float => "float"
  | int => "int"
  | bool => "bool"
  | string => "string"
  | var => "var"
  | void => "void"
  | any => "any"

def typeId : Intrinsic → TypeId
  | float => ⟨0⟩
  | int => ⟨1⟩
  | bool => ⟨2⟩
  | string => ⟨3⟩
  | var => ⟨4⟩
  | void => ⟨5⟩
  | any => ⟨6⟩

/-- The intrinsic type with a name in lower case. The names of events are strings. -/
def ofName? : String → Option Intrinsic
  | "float" => some float
  | "int" => some int
  | "bool" => some bool
  | "string" | "customeventname" | "scripteventname" => some string
  | "var" => some var
  | "void" => some void
  | "any" => some any
  | _ => none

end Intrinsic

/-- What a type is made of. -/
inductive TypeForm where
  | intrinsic (kind : Intrinsic)
  /-- A script, with the types of the structs that it declares by their names in lower case. -/
  | script (structs : Registry String TypeId)
  /-- A struct of a script. -/
  | struct (script : TypeId)
  /-- An array, with the name of the type of its elements. -/
  | array (element : String)
deriving DecidableEq, Repr

/-- A type. -/
structure TypeInfo where
  id : TypeId
  name : String
  qualifiedName : String
  /-- The symbol that the type belongs to. -/
  symbol : SymbolId
  form : TypeForm
deriving DecidableEq, Repr

namespace TypeInfo

def isIntrinsic (t : TypeInfo) : Bool := match t.form with
  | .intrinsic _ => true
  | _ => false

def isScript (t : TypeInfo) : Bool := match t.form with
  | .script _ => true
  | _ => false

def isArray (t : TypeInfo) : Bool := match t.form with
  | .array _ => true
  | _ => false

def isStruct (t : TypeInfo) : Bool := match t.form with
  | .struct _ => true
  | _ => false

end TypeInfo

/-- The types of a session. -/
structure TypeTable where
  types : Array TypeInfo
deriving DecidableEq, Repr

namespace TypeTable

def size (t : TypeTable) : Nat := t.types.size

def ids (t : TypeTable) : List TypeId := (List.range t.size).map TypeId.mk

def get? (t : TypeTable) (id : TypeId) : Option TypeInfo := t.types[id.index]?

def get (t : TypeTable) (id : TypeId) : Outcome TypeInfo :=
  match t.get? id with
  | some info => .ok info
  | none => .error (.unknownType id.index)

/-- The number that the next type gets. -/
def nextId (t : TypeTable) : TypeId := ⟨t.size⟩

/-- Adds a type under the next number. -/
def add (t : TypeTable) (name qualifiedName : String) (symbol : SymbolId) (form : TypeForm) :
    TypeTable :=
  ⟨t.types.push ⟨t.nextId, name, qualifiedName, symbol, form⟩⟩

def intrinsic? (name : String) : Option TypeId :=
  (Intrinsic.ofName? (Text.lowercase name)).map (·.typeId)

/-- Whether a type is one of the two types of numbers. -/
def isNumeric (id : TypeId) : Bool := id = Intrinsic.float.typeId || id = Intrinsic.int.typeId

/-- Adds the intrinsic types and their symbols. -/
def addIntrinsics : List Intrinsic → TypeTable → SymbolTable → Outcome (TypeTable × SymbolTable)
  | [], types, symbols => return (types, symbols)
  | kind :: kinds, types, symbols => do
    let (symbol, symbols) ← symbols.add .intrinsic kind.name none
    addIntrinsics kinds (types.add kind.name kind.name symbol (.intrinsic kind)) symbols

/-- The table of the intrinsic types, and a symbol table with their symbols. -/
def initial (symbols : SymbolTable) : Outcome (TypeTable × SymbolTable) :=
  addIntrinsics Intrinsic.all ⟨#[]⟩ symbols

end TypeTable

end PapyrusAnalysis
