import PapyrusAnalysis.Symbol.Table

/-!
# Members of arrays

Every array type has the same members, but for the type of its elements. They belong to a script
symbol of its own.

## Main definitions

* `ArrayMembers.functions`: the functions of an array.
* `ArrayMembers.create`: the symbol of an array type with its members.
-/

namespace PapyrusAnalysis.ArrayMembers

/-- The type of a parameter: that of the elements, or another one. -/
inductive SlotType where
  | element
  | named (name : String)
deriving DecidableEq, Repr

/-- A parameter, which is optional if it has a default value. -/
structure Slot where
  type : SlotType
  name : String
  default : Option Int := none
deriving DecidableEq, Repr

/-- A function of an array. -/
structure Signature where
  returnType : Option String
  name : String
  slots : List Slot
deriving DecidableEq, Repr

/-- The functions of an array in the order of their symbols. -/
def functions : List Signature :=
  [⟨none, "Clear", []⟩,
   ⟨none, "Add", [⟨.element, "akElement", none⟩, ⟨.named "int", "aiCount", some 1⟩]⟩,
   ⟨none, "Insert", [⟨.element, "akElement", none⟩, ⟨.named "int", "aiLocation", none⟩]⟩,
   ⟨none, "Remove", [⟨.named "int", "aiLocation", none⟩, ⟨.named "int", "aiCount", some 1⟩]⟩,
   ⟨none, "RemoveLast", []⟩,
   ⟨some "int", "Find", [⟨.element, "akElement", none⟩, ⟨.named "int", "aiStartIndex", some 0⟩]⟩,
   ⟨some "int", "FindStruct",
    [⟨.named "string", "asVarName", none⟩, ⟨.named "var", "akElement", none⟩,
     ⟨.named "int", "aiStartIndex", some 0⟩]⟩,
   ⟨some "int", "RFind",
    [⟨.element, "akElement", none⟩, ⟨.named "int", "aiStartIndex", some (-1)⟩]⟩,
   ⟨some "int", "RFindStruct",
    [⟨.named "string", "asVarName", none⟩, ⟨.named "var", "akElement", none⟩,
     ⟨.named "int", "aiStartIndex", some (-1)⟩]⟩]

/-- The name of the type of a parameter in an array of `element`. -/
def SlotType.nameIn (element : String) : SlotType → String
  | .element => element
  | .named name => name

/-- A step that adds symbols to a table. -/
abbrev Creation (α : Type) := StateT SymbolTable Outcome α

def addSymbol (kind : SymbolKind) (name : String) (parent : Option SymbolId) :
    Creation SymbolId := do
  let (id, symbols) ← (← get).add kind name parent
  set symbols
  return id

def change (id : SymbolId) (f : Symbol → Symbol) : Creation Unit := modify (·.update id f)

def createParameter (element : String) (function : SymbolId) (slot : Slot) :
    Creation SymbolId := do
  let id ← addSymbol .parameter slot.name function
  change id fun s => { s with
    valueType := some ⟨slot.type.nameIn element, false⟩
    defaultValue := slot.default.map .int
    traits := s.traits ∪ .only .optional slot.default.isSome }
  return id

def createFunction (element : String) (array : SymbolId) (signature : Signature) :
    Creation SymbolId := do
  let id ← addSymbol .function signature.name array
  let parameters ← signature.slots.mapM (createParameter element id)
  change id fun s => { s with
    parameters := parameters
    valueType := signature.returnType.map (⟨·, false⟩)
    traits := s.traits ∪ {.native} }
  return id

/-- The property that holds the number of elements. -/
def createLength (array : SymbolId) : Creation SymbolId := do
  let id ← addSymbol .property "Length" array
  change id fun s => { s with
    valueType := some ⟨"int", false⟩
    traits := s.traits ∪ {.auto, .autoReadOnly} }
  return id

/-- The name of the array type with elements of a type. -/
def arrayName (element : String) : String := element ++ "[]"

/-- The symbol of an array type, followed by its members. -/
def create (element : String) : Creation SymbolId := do
  let id ← addSymbol .script (arrayName element) none
  let functions ← functions.mapM (createFunction element id)
  let length ← createLength id
  change id fun s => { s with
    members := functions ++ [length]
    traits := s.traits ∪ {.generatedArray} }
  return id

end PapyrusAnalysis.ArrayMembers
