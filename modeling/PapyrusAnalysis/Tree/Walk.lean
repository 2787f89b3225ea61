import PapyrusAnalysis.Tree.Basic

/-!
# Walking a tree

A walk visits a node and then, from left to right, everything below it. At each node the visitor
says whether to go on below it.

## Main definitions

* `Tree.walk`: the walk from a node, kept going by a stack of nodes that wait for their visit.
* `Tree.walkWithin`: the same walk as a recursion on the depth of the tree.
* `Tree.collect`: the nodes of a walk with some phrase.
-/

namespace PapyrusAnalysis

/-- What a walk does after a visit. -/
inductive Step where
  /-- Go on with the parts of the node. -/
  | descend
  /-- Leave out everything below the node. -/
  | skip
deriving DecidableEq, Repr

namespace Tree

variable {σ : Type}

/-- The largest number of parts that a node has. -/
def fanOut (t : Tree) : Nat := t.nodes.foldl (fun most node => max most node.form.children.length) 0

/-- No walk over nodes that lie below each other at most `depth` deep makes more visits. -/
def visitBound (t : Tree) (depth : Nat) : Nat := Nat.pow (t.fanOut + 1) depth

/-- Nodes lie below each other no deeper than there are nodes. -/
def visitLimit (t : Tree) : Nat := t.visitBound (t.size + 1)

/-- Visits the nodes of a stack, each followed by what lies below it, in at most `fuel` visits. -/
def walkStack (t : Tree) (visit : NodeId → StateT σ Outcome Step) :
    Nat → List NodeId → StateT σ Outcome Unit
  | _, [] => pure ()
  | 0, _ :: _ => throw .unbounded
  | fuel + 1, id :: stack => do
    match ← visit id with
    | .skip => walkStack t visit fuel stack
    | .descend =>
      let form ← t.form id
      walkStack t visit fuel (form.children ++ stack)

/-- Visits a node and everything below it, a node before its parts and these from left to right. -/
def walk (t : Tree) (root : NodeId) (visit : NodeId → StateT σ Outcome Step) :
    StateT σ Outcome Unit :=
  t.walkStack visit t.visitLimit [root]

/-- Visits a node and then, one after the other, the trees of its parts, at most `depth` deep. -/
def walkWithin (t : Tree) (visit : NodeId → StateT σ Outcome Step) :
    Nat → NodeId → StateT σ Outcome Unit
  | 0, _ => throw .unbounded
  | depth + 1, id => do
    match ← visit id with
    | .skip => pure ()
    | .descend =>
      let form ← t.form id
      form.children.forM (walkWithin t visit depth)

/-- The nodes at and below a node whose phrases satisfy a condition, in the order of a walk. -/
def collect (t : Tree) (wanted : Form → Bool) (root : NodeId) : Outcome (List NodeId) := do
  let visit (id : NodeId) : StateT (List NodeId) Outcome Step := do
    if wanted (← t.form id) then
      modify (· ++ [id])
    return .descend
  let ((), found) ← (t.walk root visit).run []
  return found

end Tree

end PapyrusAnalysis
