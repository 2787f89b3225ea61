import PapyrusAnalysis.Session.Inference

/-!
# Places for values

What can stand to the left of an assignment.

## Main definitions

* `Tree.isAssignable`: whether an expression has the form of a place for a value.
* `Tree.assignedName`: the identifier that names such a place.
* `Query.isWritable`: whether the value of what an identifier names may change.
-/

namespace PapyrusAnalysis

namespace Tree

/-- The identifier of a reference. -/
def referenceName (t : Tree) (node : NodeId) : Outcome (Option NodeId) := do
  match ← t.form node with
  | .reference identifier => return some identifier
  | _ => return none

/-- The identifier that names the place of a value: `x` in `x` and in `a.x`. -/
def assignedName (t : Tree) (expression : NodeId) : Outcome (Option NodeId) := do
  match ← t.form expression with
  | .memberAccess _ access => t.referenceName access
  | .reference identifier => return some identifier
  | _ => return none

/-- Whether an expression has the form of a place for a value. -/
def isAssignable (t : Tree) (expression : NodeId) : Outcome Bool := do
  match ← t.form expression with
  | .reference _ | .index _ _ => return true
  | .memberAccess _ access => return (← t.referenceName access).isSome
  | _ => return false

end Tree

/-- Whether the value of a symbol may change after its declaration. -/
def Symbol.isWritable (s : Symbol) : Bool :=
  match s.kind with
  | .property => !(s.isAutoReadOnly || s.isConst)
  | .var => !s.isConst
  | .parameter => true
  | _ => false

namespace Query

/-- Whether the value of what an identifier names may change. -/
def isWritable (c : Codebase) (identifier : NodeId) : Query Bool := do
  match (← symbolsFor c identifier).symbols with
  | [] => return false
  | first :: _ => return (← symbol? c first).any (·.isWritable)

/-- Whether a symbol is declared by a statement, which makes it known only from there on. -/
def isBlockScoped (c : Codebase) (id : SymbolId) : Query Bool := do
  let some declaration := (← symbol? c id).bind (·.declaration) | return false
  match ← c.tree.form declaration with
  | .declaration .. => return true
  | _ => return false

end Query

end PapyrusAnalysis
