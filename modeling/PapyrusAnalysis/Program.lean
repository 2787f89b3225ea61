import PapyrusAnalysis.Binding
import PapyrusAnalysis.QualifiedName
import PapyrusAnalysis.Validation

/-!
# Programs

A program is a tree of scripts with their symbols. Its scripts are found by name; of two with the
same name the first one counts. Each of them is checked in a session of its own.

## Main definitions

* `Program.ofTree`: the program that a tree holds.
* `Program.checkScript`: what is wrong with one script.
* `Program.checkAll`: what is wrong with the whole program.
-/

namespace PapyrusAnalysis

/-- A script of a program. -/
structure ProgramScript where
  name : String
  root : NodeId
  symbol : SymbolId
  file : String
deriving DecidableEq, Repr

/-- A tree of scripts with their symbols. -/
structure Program where
  tree : Tree
  symbols : SymbolTable
  /-- The scripts by their names in lower case. -/
  scripts : Registry String ProgramScript
  /-- What binding the scripts reported. -/
  bindReport : Report
deriving DecidableEq, Repr

namespace Program

/-- Enters a script, unless its name is missing or taken. -/
def enter (scripts : Registry String ProgramScript) (script : ProgramScript) :
    Registry String ProgramScript :=
  let key := Text.lowercase script.name
  if script.name.isEmpty || scripts.contains key then scripts else scripts.insert key script

/-- Binds one script of a program. What that reports is about the file of the script. -/
def bindScript (p : Program) (root : NodeId) : Outcome Program := do
  let (symbol, binding) ← (Binding.script p.tree root).run { symbols := p.symbols, report := [] }
  let name := (← p.tree.scriptName root).getD ""
  let file := (QualifiedName.parse name).file
  return { p with
    symbols := binding.symbols
    scripts := match symbol with
      | some symbol => enter p.scripts ⟨name, root, symbol, file⟩
      | none => p.scripts
    bindReport := p.bindReport ++ binding.report.assignFile file }

/-- The program that a tree holds. -/
def ofTree (t : Tree) : Outcome Program :=
  t.roots.foldlM bindScript ⟨t, {}, ∅, []⟩

/-- The script with a name, in any case. -/
def script? (p : Program) (name : String) : Option ProgramScript :=
  p.scripts.find? (Text.lowercase name)

def scriptIndex (p : Program) : ScriptIndex where
  find? name := (p.script? name).map (·.symbol)
  names := p.scripts.values.map (·.name)

def codebase (p : Program) : Codebase := ⟨p.tree, p.symbols, p.scriptIndex⟩

/-- What is wrong with a script of the program. -/
def check (p : Program) (script : ProgramScript) : Outcome Report := do
  let session ← Session.start p.codebase
  return (← (Query.validate p.codebase script.root).run' session).assignFile script.file

/-- What is wrong with the script with a name, if there is one. -/
def checkScript (p : Program) (name : String) : Outcome (Option Report) := do
  match p.script? name with
  | some script => return some (← p.check script)
  | none => return none

/-- What binding and checking the scripts report, by file and offset. -/
def checkAll (p : Program) : Outcome Report := do
  let reports ← p.scripts.values.mapM p.check
  return Report.sorted (p.bindReport ++ reports.flatten)

end Program

end PapyrusAnalysis
