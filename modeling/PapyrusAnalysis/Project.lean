import PapyrusAnalysis.Json.Reader

/-!
# Project files

A project file is a JSON document that names the scripts of a program and how to compile them.
What it leaves out has the value of an empty project.

## Main definitions

* `Project`: the contents of a project file.
* `Project.parse`, `Project.load`: a project from a text and from a file.
* `Project.render`: a project as a text.
-/

namespace PapyrusAnalysis

/-- What becomes of the assembly that a compiler produces on the way. -/
inductive AssemblyMode where
  | none
  | keep
  | only
  | discard
deriving DecidableEq, Repr

namespace AssemblyMode

def label : AssemblyMode → String
  | none => "none"
  | keep => "keep"
  | only => "only"
  | discard => "discard"

def ofLabel? : String → Option AssemblyMode
  | "none" => some none
  | "keep" => some keep
  | "only" => some only
  | "discard" => some discard
  | _ => Option.none

end AssemblyMode

/-- Where scripts are collected from. -/
structure Folder where
  path : String := "."
  noRecurse : Bool := false
deriving DecidableEq, Repr

/-- The contents of a project file. -/
structure Project where
  /-- The file that the project was read from, if it came from one. -/
  file : Option String := none
  output : Option String := none
  /-- The file of flags for the compiler. -/
  flags : Option String := none
  assembly : AssemblyMode := .none
  optimize : Bool := false
  release : Bool := false
  isFinal : Bool := false
  /-- Folders of imported scripts, the last of which counts most. -/
  imports : List String := []
  folder : Folder := {}
  scripts : List String := []
deriving DecidableEq, Repr

/-! ## Reading values -/

namespace Json

def toText? : Json → Option String
  | string text => text
  | _ => none

def toBool? : Json → Option Bool
  | bool value => some value
  | _ => none

/-- A text, or nothing if it is null. -/
def toOptionalText? : Json → Option (Option String)
  | null => some none
  | value => value.toText?.map some

def toTexts? : Json → Option (List String)
  | array items => items.mapM toText?
  | _ => none

/-- A choice by its label, or by an object whose only member has the label as its key. -/
def toAssemblyMode? : Json → Option AssemblyMode
  | string text => text.bind AssemblyMode.ofLabel?
  | object [(key, null)] => key.bind AssemblyMode.ofLabel?
  | _ => none

end Json

/-! ## Records

A record is written as an object, or as an array of its first few fields in order. -/

/-- A field of a record: its name, and what its value makes of the record. -/
structure Field (α : Type) where
  name : String
  put : α → Json → Option α

namespace Field

variable {α : Type}

/-- Puts the members of an object into a record, of which the fields in `seen` have been given.
A field may be given once, and members that are no fields have no effect. -/
def putMembers (fields : List (Field α)) (seen : List String) (record : α) :
    List (Option String × Json) → Option α
  | [] => some record
  | (none, _) :: _ => none
  | (some key, value) :: members =>
    match fields.find? (·.name == key) with
    | none => putMembers fields seen record members
    | some field =>
      if seen.contains key then none
      else do putMembers fields (key :: seen) (← field.put record value) members

/-- Puts the items of an array into the fields of a record, of which there must be enough. -/
def putItems (record : α) : List (Field α) → List Json → Option α
  | _, [] => some record
  | [], _ :: _ => none
  | field :: fields, item :: items => do putItems (← field.put record item) fields items

/-- The record that a document holds, with the fields of `empty` where it gives none. -/
def decode (fields : List (Field α)) (empty : α) : Json → Option α
  | .object members => putMembers fields [] empty members
  | .array items => putItems empty fields items
  | _ => none

end Field

namespace Folder

def fields : List (Field Folder) :=
  [⟨"path", fun f j => do return { f with path := ← j.toText? }⟩,
   ⟨"noRecurse", fun f j => do return { f with noRecurse := ← j.toBool? }⟩]

def ofJson? (j : Json) : Option Folder := Field.decode fields {} j

def toJson (f : Folder) : Json :=
  .object [(some "path", .ofText f.path), (some "noRecurse", .bool f.noRecurse)]

end Folder

/-- Why a project file cannot be used. -/
inductive ProjectError where
  /-- There is no such file. -/
  | notFound (path : String)
  /-- The bytes of the file are no text. -/
  | notText (path : String)
  /-- The text describes no project. -/
  | notProject
deriving DecidableEq, Repr

/-- The explanation of a file that cannot be read. -/
def ProjectError.message : ProjectError → String
  | .notFound path =>
    "cannot read project file '" ++ path ++ "': No such file or directory (os error 2)"
  | .notText path => "cannot read project file '" ++ path ++ "': stream did not contain valid UTF-8"
  | .notProject => "invalid project file"

namespace Project

/-- The fields of a project file in their order. -/
def fields : List (Field Project) :=
  [⟨"output", fun p j => do return { p with output := ← j.toOptionalText? }⟩,
   ⟨"flags", fun p j => do return { p with flags := ← j.toOptionalText? }⟩,
   ⟨"asm", fun p j => do return { p with assembly := ← j.toAssemblyMode? }⟩,
   ⟨"optimize", fun p j => do return { p with optimize := ← j.toBool? }⟩,
   ⟨"release", fun p j => do return { p with release := ← j.toBool? }⟩,
   ⟨"final", fun p j => do return { p with isFinal := ← j.toBool? }⟩,
   ⟨"imports", fun p j => do return { p with imports := ← j.toTexts? }⟩,
   ⟨"folder", fun p j => do return { p with folder := ← Folder.ofJson? j }⟩,
   ⟨"scripts", fun p j => do return { p with scripts := ← j.toTexts? }⟩]

def ofJson? (j : Json) : Option Project := Field.decode fields {} j

/-- The project that a text describes. -/
def parse (text : String) : Except ProjectError Project :=
  match Json.parse? text >>= ofJson? with
  | some project => .ok project
  | none => .error .notProject

/-- The project in a file, of which `content` is what it holds if it exists. -/
def load (path : String) (content : Option ByteArray) : Except ProjectError Project :=
  match content with
  | none => .error (.notFound path)
  | some bytes =>
    match String.fromUTF8? bytes with
    | none => .error (.notText path)
    | some text => do return { ← parse text with file := some path }

def toJson (p : Project) : Json :=
  .object
    [(some "output", .ofOptionalText p.output),
     (some "flags", .ofOptionalText p.flags),
     (some "asm", .ofText p.assembly.label),
     (some "optimize", .bool p.optimize),
     (some "release", .bool p.release),
     (some "final", .bool p.isFinal),
     (some "imports", .ofTexts p.imports),
     (some "folder", p.folder.toJson),
     (some "scripts", .ofTexts p.scripts)]

/-- The project as a text, without the file that it came from. -/
def render (p : Project) : String := p.toJson.render

end Project

end PapyrusAnalysis
