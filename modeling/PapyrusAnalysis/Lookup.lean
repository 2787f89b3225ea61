import PapyrusAnalysis.Symbol.Basic

/-!
# Filters for members

A look-up of members lets through those that a `Filter` admits. Most of its flags come in pairs,
one for members with a property and one for those without it.

## Main definitions

* `Filter`: which members a look-up admits, and how far it goes.
* `SymbolKind.memberKind?`: the kind of member that a symbol is.
-/

namespace PapyrusAnalysis

/-- What a look-up of members admits. -/
inductive LookupFlag where
  | auto
  /-- Leave out inherited members. -/
  | declaredOnly
  /-- Leave out an inherited member if a script further down has one of its name. -/
  | flattenHierarchy
  | global
  /-- Admit members that belong to an instance of a script. -/
  | ofInstance
  | native
  | nonNative
  | readOnly
  | writable
  | nonAuto
deriving DecidableEq, Repr

instance : Flag LookupFlag where
  bit
    | .auto => 0
    | .declaredOnly => 1
    | .flattenHierarchy => 2
    | .global => 3
    | .ofInstance => 4
    | .native => 6
    | .nonNative => 7
    | .readOnly => 14
    | .writable => 15
    | .nonAuto => 16

/-- A choice of members. -/
abbrev Filter := FlagSet LookupFlag

namespace Filter

/-- Admits every member, inherited ones included. -/
def everything : Filter :=
  {.nonAuto, .auto, .readOnly, .writable, .ofInstance, .global, .native, .nonNative}

/-- Admits the global functions of a script. -/
def globals : Filter := {.global, .native, .nonNative}

def admitsScope (f : Filter) (isGlobal : Bool) : Bool :=
  if isGlobal then f.has .global else f.has .ofInstance

def admitsNativity (f : Filter) (isNative : Bool) : Bool :=
  if isNative then f.has .native else f.has .nonNative

def admitsAuto (f : Filter) (isAuto : Bool) : Bool :=
  if isAuto then f.has .auto else f.has .nonAuto

def admitsAccess (f : Filter) (isReadOnly : Bool) : Bool :=
  if isReadOnly then f.has .readOnly else f.has .writable

def admitsFunction (f : Filter) (s : Symbol) : Bool :=
  f.admitsScope s.isGlobal && f.admitsNativity s.isNative

/-- A constant property counts as read-only. -/
def admitsProperty (f : Filter) (s : Symbol) : Bool :=
  f.admitsAuto s.isAuto && f.admitsAccess (s.isAutoReadOnly || s.isConst)

def admitsState (f : Filter) (s : Symbol) : Bool := f.admitsAuto s.isAuto

end Filter

/-- The kind of member that a symbol is. A parameter counts as a variable. -/
def SymbolKind.memberKind? : SymbolKind → Option MemberKind
  | .customEvent => some .customEvent
  | .event => some .event
  | .function => some .function
  | .group => some .group
  | .property => some .property
  | .state => some .state
  | .var | .parameter => some .var
  | .struct => some .struct
  | .script | .importLine | .intrinsic => none

end PapyrusAnalysis
