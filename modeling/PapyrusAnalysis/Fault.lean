/-!
# Faults

An operation of the analysis either yields a value or meets a *fault*: a condition that no
diagnostic describes because the data handed in makes no sense. A fault ends the run that met it.

## Main definitions

* `Fault`: the conditions under which an operation has no value.
* `Outcome`: a value or a fault.
-/

namespace PapyrusAnalysis

/-- A condition under which an operation of the analysis has no value. -/
inductive Fault where
  /-- A stretch of text ends before it starts. -/
  | reversedRange (start stop : Nat)
  /-- A text offset does not fit into 32 bits. -/
  | offsetOverflow
  /-- No node of the tree has this index. -/
  | unknownNode (index : Nat)
  /-- No type of the table has this index. -/
  | unknownType (index : Nat)
  /-- Every 32-bit symbol number is taken. -/
  | symbolsExhausted
  /-- A search went deeper than the tree, so some node lies below itself. -/
  | unbounded
deriving DecidableEq, Repr

/-- A value, or the fault that prevented it. -/
abbrev Outcome (α : Type) := Except Fault α

end PapyrusAnalysis
