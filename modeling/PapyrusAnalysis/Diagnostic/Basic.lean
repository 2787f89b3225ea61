import PapyrusAnalysis.Diagnostic.Message
import PapyrusAnalysis.Text.Range

/-!
# Diagnostics

A diagnostic is a message with its places filled, and possibly the file and the stretch of text
that it is about. A `Report` is a list of diagnostics in the order in which they were found.

## Main definitions

* `Diagnostic.plain`, `Diagnostic.about`: a diagnostic without and with a place.
* `Diagnostic.display`: a diagnostic as one line of text.
* `Report.sorted`: diagnostics by file and position.
-/

namespace PapyrusAnalysis

/-- A message about a place in a script. -/
structure Diagnostic where
  file : Option String
  span : Option Span
  text : String
  code : Nat
  category : Category
deriving DecidableEq, Repr

namespace Diagnostic

/-- A diagnostic that is about no particular place. -/
def plain (message : Message) (arguments : List String) : Diagnostic where
  file := none
  span := none
  text := fill message.template arguments
  code := message.code
  category := message.category

/-- A diagnostic about a range of text. -/
def about (range : Range) (message : Message) (arguments : List String) : Outcome Diagnostic := do
  return { Diagnostic.plain message arguments with span := some (← range.toSpan) }

def isError (d : Diagnostic) : Bool := d.category == .error

/-- The file that the diagnostic names, or the given one if it names none. -/
def inFile (file : String) (d : Diagnostic) : Diagnostic :=
  { d with file := some (d.file.getD file) }

/-- The diagnostic as one line: the file and the offset, if known, before the message. -/
def display (d : Diagnostic) : String :=
  let position := match d.span with
    | some span => s!"({span.start})"
    | none => ""
  let place := match d.file with
    | some file => file ++ position ++ ": "
    | none => ""
  s!"{place}{d.category.label} P{d.code}: {d.text}"

/-- The offset that a diagnostic sorts by. -/
def offset (d : Diagnostic) : Nat := (d.span.map (·.start)).getD 0

end Diagnostic

/-- A diagnostic without a file comes before one with a file, and files come in the order of their
names. -/
def fileOrder : Option String → Option String → Ordering
  | none, none => .eq
  | none, some _ => .lt
  | some _, none => .gt
  | some a, some b => compare a b

/-- Diagnostics in the order in which they were found. -/
abbrev Report := List Diagnostic

namespace Report

/-- Whether one diagnostic may stand before another in a sorted report. -/
def inOrder (a b : Diagnostic) : Bool :=
  match fileOrder a.file b.file with
  | .lt => true
  | .gt => false
  | .eq => a.offset ≤ b.offset

/-- The diagnostics by file and offset; those that agree in both keep their order. -/
def sorted (r : Report) : Report := r.mergeSort inOrder

/-- Names the file in all diagnostics that name none. -/
def assignFile (file : String) (r : Report) : Report := r.map (·.inFile file)

def errorCount (r : Report) : Nat := r.countP (·.isError)

end Report

end PapyrusAnalysis
