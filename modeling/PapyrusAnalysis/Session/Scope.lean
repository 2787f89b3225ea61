import PapyrusAnalysis.Session.Members

/-!
# Scopes

What can be named at a node without regard to types: the declarations in the containers around it,
from the inside out, and at the script the members of its type and what its imports offer.

## Main definitions

* `Tree.baseFor`: the expression whose member a node is.
* `Tree.memberKindsAt`: the kinds of members that a name at a node may refer to.
* `Query.localSymbols`: the symbols in the containers around a node.
-/

namespace PapyrusAnalysis

namespace Tree

/-- The base of the first member access among some nodes around a node that has the node on its
other side. The search ends at an argument of a call. -/
def baseAmong (t : Tree) (lineage : List NodeId) : List NodeId → Option NodeId
  | [] => none
  | id :: rest =>
    match (t.node? id).map Node.form with
    | some (.argument ..) => none
    | some (.memberAccess base _) =>
      if lineage.contains base then baseAmong t lineage rest else some base
    | _ => baseAmong t lineage rest

/-- The expression whose member a node is, if it stands in the access part of a member access. -/
def baseFor (t : Tree) (node : NodeId) : Outcome (Option NodeId) := do
  let lineage ← t.lineage node
  return t.baseAmong lineage lineage

/-- The kinds of members that a name at a node may refer to, as the innermost limit around it
says. -/
def memberKindsAt (t : Tree) (node : NodeId) : Outcome (FlagSet MemberKind) := do
  let limit? := (← t.lineage node).findSome? fun a => (t.node? a).bind (·.scope)
  return limit?.getD MemberKind.anywhere

/-- The containers around a node, from the inside out. -/
def containersAround (t : Tree) (node : NodeId) : Outcome (List NodeId) := do
  return (← t.lineage node).filter fun a => (t.node? a).any (·.form.isContainer)

end Tree

namespace Query

/-- The members of the scripts with some names that a script imports: functions that need no
instance, and structs. -/
def importedMembers (c : Codebase) (kinds : FlagSet MemberKind) :
    List String → Query (List SymbolId)
  | [] => return []
  | name :: rest => do
    let members ← match ← resolveType c name [] with
      | some type => membersOf c type (({.function} ∩ kinds) ∪ {.struct}) .globals
      | none => pure []
    return members ++ (← importedMembers c kinds rest)

/-- The members of a script, and what its imports offer. -/
def scriptSymbols (c : Codebase) (script : SymbolId) (kinds : FlagSet MemberKind)
    (filter : Filter) : Query (List SymbolId) := do
  let members ← match ← typeOfSymbol c script with
    | some type => membersOf c type kinds filter
    | none => pure []
  let imports ← match ← symbol? c script with
    | some symbol => importNames c symbol
    | none => pure []
  return members ++ (← importedMembers c kinds imports)

/-- The symbols that a container offers itself as a script. -/
def scriptPart (c : Codebase) (container : NodeId) (kinds : FlagSet MemberKind)
    (filter : Filter) : Query (List SymbolId) := do
  if !(c.tree.node? container).any (·.form.isScript) then return []
  match c.symbols.symbolOf container with
  | some script => scriptSymbols c script kinds filter
  | none => return []

/-- Whether a local symbol is of one of some kinds and its name is not among those taken. -/
def isVisibleLocal (kinds : FlagSet MemberKind) (taken : List String) (symbol : Symbol) : Bool :=
  !taken.contains (Text.lowercase symbol.qualifiedName) && symbol.kind.memberKind?.any (kinds.has ·)

/-- The symbols that a container offers: as a script, and those declared in it. -/
def containerSymbols (c : Codebase) (kinds : FlagSet MemberKind) (filter : Filter)
    (container : NodeId) : Query (List SymbolId) := do
  let ofScript ← scriptPart c container kinds filter
  if !filter.has .ofInstance then return ofScript
  let s ← get
  let taken := ofScript.filterMap fun id =>
    (s.symbol? c id).map fun symbol => Text.lowercase symbol.qualifiedName
  let locals := s.select c (c.symbols.names .locals container).values (isVisibleLocal kinds taken)
  return ofScript ++ locals.map (·.1)

/-- The symbols in the containers around a node, from the inside out. -/
def localSymbols (c : Codebase) (node : NodeId) (kinds : FlagSet MemberKind) (filter : Filter) :
    Query (List SymbolId) := do
  let containers ← c.tree.containersAround node
  return (← containers.mapM (containerSymbols c kinds filter)).flatten

/-- Those among some symbols that have a name, up to the case of its letters. -/
def withName (c : Codebase) (name : String) (ids : List SymbolId) : Query (List SymbolId) := do
  return ((← get).select c ids (Text.sameFolded name ·.name)).map (·.1)

end Query

end PapyrusAnalysis
