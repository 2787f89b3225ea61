import PapyrusAnalysis.Lookup
import PapyrusAnalysis.Session.Resolution

/-!
# Members and assignability

The members of a type are those of its symbol, and for a script also those of the scripts that it
extends.

## Main definitions

* `Query.membersOf`: the members of a type that a filter admits.
* `Query.isAssignable`: whether a value of one type fits a place of another.
-/

namespace PapyrusAnalysis

/-- Leaves out what has the name of something before it, in any case. -/
def dropShadowed (seen : List String) : List (SymbolId × Symbol) → List (SymbolId × Symbol)
  | [] => []
  | (id, symbol) :: rest =>
    let name := Text.lowercase symbol.name
    if seen.contains name then dropShadowed seen rest
    else (id, symbol) :: dropShadowed (name :: seen) rest

namespace Query

/-! ## Members -/

/-- The members of a type's own symbol that satisfy a condition. -/
def ownMembers (c : Codebase) (type : TypeId) (wanted : Symbol → Bool) :
    Query (List (SymbolId × Symbol)) := do
  let some symbol ← symbol? c (← typeInfo type).symbol | return []
  return (← get).selectNumbered c symbol.members wanted

/-- The members of a type and, if it is a script, of the scripts that it extends, unless only its
own are asked for. -/
def inheritedMembers (c : Codebase) (type : TypeId) (filter : Filter) (wanted : Symbol → Bool) :
    Query (List (SymbolId × Symbol)) := do
  if !(← typeInfo type).isScript || filter.has .declaredOnly then
    ownMembers c type wanted
  else
    let members ← (← scriptHierarchy c type).mapM (ownMembers c · wanted)
    return if filter.has .flattenHierarchy then dropShadowed [] members.flatten
      else members.flatten

/-- What a group of members is for: the kind of symbols in it, the types that have it, and whether
it is inherited. -/
structure MemberGroup where
  kind : MemberKind
  wanted : Symbol → Bool
  inTypes : TypeInfo → Bool
  inherited : Bool

/-- The groups of members that need no instance, in the order in which they are listed. -/
def staticGroups (filter : Filter) : List MemberGroup :=
  [⟨.function, fun s => s.kind = .function && filter.admitsFunction s,
      fun t => t.isScript || t.isArray, true⟩,
   ⟨.struct, fun s => s.kind = .struct, TypeInfo.isScript, false⟩]
  ++ if filter.has .global then [⟨.customEvent, fun s => s.kind = .customEvent,
      TypeInfo.isScript, true⟩] else []

/-- The groups of members of an instance, in the order in which they are listed. -/
def instanceGroups (filter : Filter) : List MemberGroup :=
  if filter.has .ofInstance then
    [⟨.event, fun s => s.kind = .event, TypeInfo.isScript, true⟩,
     ⟨.group, fun s => s.kind = .group, TypeInfo.isScript, true⟩,
     ⟨.property, fun s => s.kind = .property && filter.admitsProperty s,
      fun t => t.isScript || t.isArray, true⟩,
     ⟨.state, fun s => s.kind = .state && filter.admitsState s, TypeInfo.isScript, true⟩,
     ⟨.var, fun s => s.kind = .var, fun t => t.isScript || t.isStruct, false⟩]
  else []

/-- The members of a type in one group. -/
def groupMembers (c : Codebase) (type : TypeId) (filter : Filter) (group : MemberGroup) :
    Query (List SymbolId) := do
  let members ← if group.inherited then inheritedMembers c type filter group.wanted
    else ownMembers c type group.wanted
  return members.map (·.1)

/-- The members of a type of some kinds that a filter admits, group by group. An intrinsic type has
no members. -/
def membersOf (c : Codebase) (type : TypeId) (kinds : FlagSet MemberKind) (filter : Filter) :
    Query (List SymbolId) := do
  let info ← typeInfo type
  let groups := (staticGroups filter ++ instanceGroups filter).filter fun g =>
    kinds.has g.kind && g.inTypes info
  return (← groups.mapM (groupMembers c type filter)).flatten

/-! ## Assignability -/

/-- Whether every value fits a place of the type, because it is converted. -/
def acceptsAll (type : TypeId) : Bool :=
  [Intrinsic.var, .string, .bool, .int, .any].any (·.typeId = type)

/-- Whether a type is that of numbers, texts or truth values. -/
def isPrimitive (type : TypeId) : Bool :=
  [Intrinsic.float, .int, .string, .bool].any (·.typeId = type)

/-- Whether a script extends the script with a qualified name, or is that script. -/
def extendsNamed (c : Codebase) (type : TypeId) (name : String) : Query Bool := do
  let hierarchy ← scriptHierarchy c type
  let names ← hierarchy.mapM fun t => return (← typeInfo t).qualifiedName
  return names.any (Text.sameFolded name)

/-- Whether a value of type `value` fits a place of type `place`. All arrays fit each other. -/
def isAssignable (c : Codebase) (place value : TypeId) : Query Bool := do
  let placeInfo ← typeInfo place
  if placeInfo.isArray then
    if (← typeInfo value).isArray then return true
  if place = value || acceptsAll place || value = Intrinsic.any.typeId
      || (isPrimitive place && isPrimitive value) then
    return true
  if placeInfo.isScript then
    if (← typeInfo value).isScript then
      return ← extendsNamed c value placeInfo.qualifiedName
  return false

end Query

end PapyrusAnalysis
