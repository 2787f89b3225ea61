/-!
# Qualified names

A script's full name is a path of names with colons between them, such as `Quests:Main:Stage`. The
part before the last colon is its namespace. A struct is named the same way, with the script that
declares it as its namespace.

## Main definitions

* `QualifiedName.parse`: a full name cut at its last colon.
* `qualify`: a namespace and a name joined.
* `QualifiedName.file`: the file that declares a script.
-/

namespace PapyrusAnalysis

/-- A name and the namespace that holds it, which is empty for a bare name. -/
structure QualifiedName where
  container : String
  name : String
deriving DecidableEq, Repr

/-- A namespace and a name joined by a colon, or the name alone in the empty namespace. -/
def qualify (container name : String) : String :=
  if container.isEmpty then name else container ++ ":" ++ name

namespace QualifiedName

/-- Cuts a full name at its last colon. -/
def parse (fullName : String) : QualifiedName :=
  let backwards := fullName.toList.reverse
  match backwards.dropWhile (· != ':') with
  | [] => ⟨"", fullName⟩
  | _ :: container =>
    ⟨.ofList container.reverse, .ofList (backwards.takeWhile (· != ':')).reverse⟩

def join (n : QualifiedName) : String := qualify n.container n.name

/-- The path of the file that declares a script: one folder for each part of the namespace. -/
def file (n : QualifiedName) : String :=
  let leaf := n.name ++ ".psc"
  if n.container.isEmpty then leaf
  else .ofList (n.container.toList.map fun c => if c = ':' then '/' else c) ++ "/" ++ leaf

end QualifiedName

end PapyrusAnalysis
