import PapyrusAnalysis.Tree.Node

/-!
# Syntax trees

A `Tree` holds the nodes of one or more scripts. A node is added after its parts, which then point
back to it; a part of two nodes belongs to the one that came last. Numbers of parts are
not checked: they may name no node, or a node that is added later.

## Main definitions

* `Tree.add`: a tree with one more node.
* `Tree.node`: the node with a number, or a fault.
* `Tree.lineage`: a node and the nodes around it, from the inside out.
* `Tree.nameOf`: the name that a node carries.
-/

namespace PapyrusAnalysis

/-- A table of syntax nodes with the scripts among them in the order of their addition. -/
structure Tree where
  nodes : Array Node
  roots : List NodeId
deriving DecidableEq, Repr

namespace Tree

def empty : Tree := ⟨#[], []⟩

instance : Inhabited Tree := ⟨empty⟩

def size (t : Tree) : Nat := t.nodes.size

/-- The numbers of all nodes in increasing order. -/
def ids (t : Tree) : List NodeId := (List.range t.size).map NodeId.mk

/-- Makes `parent` the parent of the nodes in `children`, as far as they are in the table. -/
def link (parent : NodeId) (children : List NodeId) (nodes : Array Node) : Array Node :=
  children.foldl (fun nodes child =>
    nodes.modify child.index fun node => { node with parent := some parent }) nodes

/-- The number of the next node: the size of the tree so far. Numbers have 32 bits and start over
when all of them are taken. -/
def nextId (t : Tree) : NodeId := ⟨t.size % NodeId.limit⟩

/-- Adds a node under the next number. -/
def add (t : Tree) (form : Form) (range : Range) : Tree :=
  { nodes := (link t.nextId form.children t.nodes).push
      { form := form, range := range, parent := none, scope := none }
    roots := if form.isScript then t.roots ++ [t.nextId] else t.roots }

/-- Limits the names at and below a node to some kinds of members. -/
def restrict (t : Tree) (id : NodeId) (scope : FlagSet MemberKind) : Tree :=
  { t with nodes := t.nodes.modify id.index fun node => { node with scope := some scope } }

/-! ## Reading nodes -/

def node? (t : Tree) (id : NodeId) : Option Node := t.nodes[id.index]?

def node (t : Tree) (id : NodeId) : Outcome Node :=
  match t.node? id with
  | some node => .ok node
  | none => .error (.unknownNode id.index)

def form (t : Tree) (id : NodeId) : Outcome Form := do return (← t.node id).form

def range (t : Tree) (id : NodeId) : Outcome Range := do return (← t.node id).range

def parent (t : Tree) (id : NodeId) : Outcome (Option NodeId) := do return (← t.node id).parent

/-! ## The nodes around a node -/

/-- A node, its parent, the parent of that one, and so on, for at most `fuel` nodes. -/
def climb (t : Tree) : Nat → Option NodeId → List NodeId
  | 0, _ | _, none => []
  | fuel + 1, some id => id :: climb t fuel ((t.node? id).bind (·.parent))

/-- The nodes around a node, from the inside out. As long as the numbers last, a parent is added
after its parts, so there are fewer of them than nodes in the tree. -/
def ancestors (t : Tree) (id : NodeId) : Outcome (List NodeId) := do
  return t.climb t.size (← t.parent id)

/-- A node followed by its ancestors. -/
def lineage (t : Tree) (id : NodeId) : Outcome (List NodeId) := do
  return id :: (← t.ancestors id)

/-- Whether a node is `ancestor` or lies below it. -/
def isWithin (t : Tree) (id ancestor : NodeId) : Outcome Bool := do
  return (← t.lineage id).contains ancestor

/-- The script around a node. -/
def scriptOf (t : Tree) (id : NodeId) : Outcome (Option NodeId) := do
  return (← t.lineage id).find? fun a => (t.node? a).any (·.form.isScript)

/-! ## Names -/

/-- The name at a node, found within `fuel` steps. -/
def nameWithin (t : Tree) : Nat → NodeId → Outcome (Option String)
  | 0, _ => .error .unbounded
  | fuel + 1, id => do
    match ← t.form id with
    | .identifier name => return some name
    | .typeName identifier _ | .reference identifier | .importLine identifier
    | .customEvent identifier => nameWithin t fuel identifier
    | _ => return none

/-- The name of an identifier, or of the identifier that is the only part of a type name, a
reference, an import or a custom event. -/
def nameOf (t : Tree) (id : NodeId) : Outcome (Option String) := t.nameWithin (t.size + 1) id

/-- The name that a script gives in its header. -/
def scriptName (t : Tree) (id : NodeId) : Outcome (Option String) := do
  match ← t.form id with
  | .script header _ _ =>
    match ← t.form header with
    | .scriptHeader identifier _ _ => t.nameOf identifier
    | _ => return none
  | _ => return none

end Tree

end PapyrusAnalysis
