import PapyrusAnalysis.Tree.Node

/-!
# Symbols

A symbol is a named thing that a script declares, or that the language provides.

## Main definitions

* `Symbol`: what is known about a named thing.
* `Trait`: the yes-or-no properties of a symbol.
-/

namespace PapyrusAnalysis

/-- The number of a symbol. -/
structure SymbolId where
  index : Nat
deriving DecidableEq, Repr, Inhabited

namespace SymbolId

/-- The first number that no symbol can have. -/
def limit : Nat := Nat.pow 2 32

/-- A number that stands for no symbol. -/
def unknown : SymbolId := ⟨limit - 1⟩

end SymbolId

/-- What a symbol stands for. -/
inductive SymbolKind where
  | script
  | struct
  | function
  | property
  | event
  | customEvent
  | group
  | state
  | var
  | parameter
  | importLine
  | intrinsic
deriving DecidableEq, Repr

def SymbolKind.label : SymbolKind → String
  | .script => "Script"
  | .struct => "Struct"
  | .function => "Function"
  | .property => "Property"
  | .event => "Event"
  | .customEvent => "CustomEvent"
  | .group => "Group"
  | .state => "State"
  | .var => "Variable"
  | .parameter => "Parameter"
  | .importLine => "Import"
  | .intrinsic => "Intrinsic"

/-- A yes-or-no property of a symbol. -/
inductive Trait where
  | global
  | native
  | auto
  | autoReadOnly
  | const
  | optional
  /-- The symbol belongs to an array type. -/
  | generatedArray
deriving DecidableEq, Repr

instance : Flag Trait where
  bit
    | .global => 0
    | .native => 1
    | .auto => 2
    | .autoReadOnly => 3
    | .const => 4
    | .optional => 5
    | .generatedArray => 6

/-- A type as a declaration writes it. -/
structure TypeReference where
  name : String
  isArray : Bool
deriving DecidableEq, Repr

/-- A named thing. -/
structure Symbol where
  id : SymbolId
  kind : SymbolKind
  name : String
  parent : Option SymbolId := none
  /-- The names of the symbols around this one and its own, with colons between them. -/
  qualifiedName : String := name
  /-- The node that declares the symbol, unless the language provides it. -/
  declaration : Option NodeId := none
  /-- The members of a script, struct, group or state in the order of their declarations. -/
  members : List SymbolId := []
  /-- The parameters of a function or event. -/
  parameters : List SymbolId := []
  /-- The imports of a script. -/
  imports : List SymbolId := []
  /-- The name of the script that an import names. -/
  importedScript : Option String := none
  /-- The name of the script that a script extends. -/
  extendedScript : Option String := none
  /-- The type of a variable, parameter or property, or what a function returns. -/
  valueType : Option TypeReference := none
  defaultValue : Option Literal := none
  getter : Option SymbolId := none
  setter : Option SymbolId := none
  traits : FlagSet Trait := ∅
deriving DecidableEq, Repr

namespace Symbol

def isGlobal (s : Symbol) : Bool := s.traits.has .global
def isNative (s : Symbol) : Bool := s.traits.has .native
def isAuto (s : Symbol) : Bool := s.traits.has .auto
def isAutoReadOnly (s : Symbol) : Bool := s.traits.has .autoReadOnly
def isConst (s : Symbol) : Bool := s.traits.has .const
def isOptional (s : Symbol) : Bool := s.traits.has .optional
def isGeneratedArray (s : Symbol) : Bool := s.traits.has .generatedArray

end Symbol

end PapyrusAnalysis
