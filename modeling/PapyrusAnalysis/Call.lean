import PapyrusAnalysis.Symbol.Basic
import PapyrusAnalysis.Text.Lowercase

/-!
# Arguments and parameters

A call hands its arguments to the parameters of a function or event. Required parameters take
arguments in order. What is left goes to optional parameters, by name or, without a name, in order.

## Main definitions

* `Parameter`, `Argument`: the two sides of a call.
* `Pairing`: what becomes of an argument or of a required parameter.
* `Call.pair`: the pairings of a call.
-/

namespace PapyrusAnalysis

/-- A parameter with its name in lower case. -/
structure Parameter where
  symbol : SymbolId
  name : String
  isOptional : Bool
deriving DecidableEq, Repr

/-- The parameter that a symbol stands for. -/
def Parameter.ofSymbol (id : SymbolId) : Option Symbol → Parameter
  | some s => ⟨id, Text.lowercase s.name, s.isOptional⟩
  | none => ⟨id, "", false⟩

/-- An argument of a call. -/
structure Argument where
  node : NodeId
  name : Option String
  value : NodeId
deriving DecidableEq, Repr

/-- What becomes of an argument, or of a required parameter that gets none. -/
inductive Pairing where
  /-- The argument goes to the parameter. -/
  | passed (argument : Argument) (parameter : Parameter)
  /-- No argument is left for a required parameter. -/
  | missing
  /-- No optional parameter has the name of the argument. -/
  | unknownName (argument : Argument) (name : String)
  /-- The parameter that the argument names has an argument already. -/
  | reusedName (argument : Argument)
deriving DecidableEq, Repr

namespace Call

/-- The last of some parameters with a name, in any case. -/
def parameterNamed (parameters : List Parameter) (name : String) : Option Parameter :=
  parameters.reverse.find? (·.name = Text.lowercase name)

/-- Hands arguments to required parameters in order. -/
def pairRequired : List Parameter → List Argument → List Pairing
  | [], _ => []
  | _ :: parameters, [] => .missing :: pairRequired parameters []
  | parameter :: parameters, argument :: arguments =>
    .passed argument parameter :: pairRequired parameters arguments

/-- Hands arguments to optional parameters. Of these, `queue` are the ones that arguments without a
name go to next, and `used` are the names of those that have an argument. -/
def pairOptional (optional : List Parameter) :
    List Parameter → List String → List Argument → List Pairing
  | _, _, [] => []
  | queue, used, argument :: arguments =>
    match argument.name, queue with
    | none, [] => pairOptional optional [] used arguments
    | none, parameter :: queue =>
      .passed argument parameter :: pairOptional optional queue (parameter.name :: used) arguments
    | some name, queue =>
      match parameterNamed optional name with
      | none => .unknownName argument name :: pairOptional optional queue used arguments
      | some parameter =>
        if used.contains parameter.name then
          .reusedName argument :: pairOptional optional queue used arguments
        else
          .passed argument parameter ::
            pairOptional optional queue (parameter.name :: used) arguments

/-- The pairings of the arguments of a call with the parameters of what it calls. -/
def pair (parameters : List Parameter) (arguments : List Argument) : List Pairing :=
  let (optional, required) := parameters.partition (·.isOptional)
  pairRequired required arguments
    ++ pairOptional optional optional [] (arguments.drop required.length)

end Call

end PapyrusAnalysis
