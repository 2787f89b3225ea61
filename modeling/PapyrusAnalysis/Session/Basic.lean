import PapyrusAnalysis.Tree.Walk
import PapyrusAnalysis.TypeTable

/-!
# Sessions

A session answers questions about a codebase. Types are made when a question first needs them and
kept for the questions that follow. The symbols of intrinsic types and arrays continue the numbers
of the codebase.

## Main definitions

* `Codebase`: what the questions are about.
* `Session`: the types made so far.
* `Query`: a question.
-/

namespace PapyrusAnalysis

/-- The scripts that can be named. -/
structure ScriptIndex where
  /-- The script with a name, in any case. -/
  find? : String → Option SymbolId
  names : List String

def SymbolTable.scriptIndex (t : SymbolTable) : ScriptIndex := ⟨t.script?, t.scriptNames⟩

/-- Scripts with their symbols. -/
structure Codebase where
  tree : Tree
  symbols : SymbolTable
  scripts : ScriptIndex

/-- The types made so far, with the means to find them again. -/
structure Session where
  types : TypeTable
  /-- The symbols of intrinsic types and of arrays. -/
  synthetic : SymbolTable
  /-- The types of scripts and structs by their qualified names in lower case. -/
  named : Registry String TypeId := ∅
  /-- Array types by the names of their elements' types in lower case. -/
  arrays : Registry String TypeId := ∅
  /-- Array types by their symbols. -/
  arraySymbols : Registry SymbolId TypeId := ∅
  /-- The nodes whose type is being worked out. -/
  pending : List NodeId := []
deriving DecidableEq, Repr

/-- A question, which may lead to new types. -/
abbrev Query (α : Type) := StateT Session Outcome α

namespace Session

/-- The session in which nothing has been asked yet. -/
def start (c : Codebase) : Outcome Session := do
  let (types, synthetic) ← TypeTable.initial (.startingAt (← c.symbols.nextId).index)
  return { types := types, synthetic := synthetic }

/-- A symbol of the codebase or of the session. -/
def symbol? (s : Session) (c : Codebase) (id : SymbolId) : Option Symbol :=
  if c.symbols.owns id then c.symbols.get? id else s.synthetic.get? id

end Session

namespace Query

def symbol? (c : Codebase) (id : SymbolId) : Query (Option Symbol) := do
  return (← get).symbol? c id

def typeInfo (id : TypeId) : Query TypeInfo := do (← get).types.get id

end Query

end PapyrusAnalysis
