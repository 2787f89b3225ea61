import PapyrusAnalysis.FlagSet

/-!
# Modifiers and member kinds

The two kinds of flags that stand on syntax nodes: the modifier keywords of a declaration, and the
kinds of members that a name in some place may refer to.
-/

namespace PapyrusAnalysis

/-- A keyword that qualifies a declaration. -/
inductive Modifier where
  | auto
  | autoReadOnly
  | betaOnly
  | const
  | debugOnly
  | global
  | native
deriving DecidableEq, Repr

instance : Flag Modifier where
  bit
    | .auto => 0
    | .autoReadOnly => 1
    | .betaOnly => 2
    | .const => 3
    | .debugOnly => 4
    | .global => 5
    | .native => 6

/-- What a member of a script or struct can be. -/
inductive MemberKind where
  | customEvent
  | event
  | function
  | group
  | property
  | state
  | var
  | struct
deriving DecidableEq, Repr

instance : Flag MemberKind where
  bit
    | .customEvent => 0
    | .event => 1
    | .function => 2
    | .group => 3
    | .property => 4
    | .state => 5
    | .var => 6
    | .struct => 7

namespace MemberKind

def all : FlagSet MemberKind :=
  {.customEvent, .event, .function, .group, .property, .state, .var, .struct}

/-- What a name may refer to where nothing around it says more: all but groups and states. -/
def anywhere : FlagSet MemberKind := (all.erase .group).erase .state

end MemberKind

end PapyrusAnalysis
