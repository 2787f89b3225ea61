import PapyrusAnalysis.Text.Replace

/-!
# Messages

What a diagnostic can say. A message has a code and a template whose places `{0}`, `{1}`, … are
filled with arguments.

## Main definitions

* `fill`: a template with its places filled.
* `Message`: a code, a category and a template, and the messages of the analysis.
-/

namespace PapyrusAnalysis

/-- How serious a diagnostic is. -/
inductive Category where
  | warning
  | error
deriving DecidableEq, Repr

def Category.label : Category → String
  | .warning => "warning"
  | .error => "error"

/-- The text that marks the place of an argument in a template. -/
def placeholder (index : Nat) : String :=
  String.singleton '{' ++ toString index ++ String.singleton '}'

/-- Fills the places from number `index` on, one argument after another. A place that stands in an
argument already put in is filled like any other. -/
def fillFrom (index : Nat) (template : String) : List String → String
  | [] => template
  | argument :: rest =>
    fillFrom (index + 1) (Text.replaceAll template (placeholder index) argument) rest

/-- A template with its places filled by the arguments. -/
def fill (template : String) (arguments : List String) : String := fillFrom 0 template arguments

/-- Something that a diagnostic can say. -/
structure Message where
  code : Nat
  category : Category
  template : String
deriving DecidableEq, Repr

namespace Message

def identifierExpected : Message := ⟨1003, .error, "Identifier expected."⟩

def leftHandSideExpected : Message :=
  ⟨1109, .error, "Expected left-hand side of assignment expression"⟩

def rightHandSideExpected : Message :=
  ⟨1110, .error, "Expected right-hand side of assignment expression"⟩

def cannotFindName : Message := ⟨2304, .error, "Cannot find name '{0}'"⟩

def notAssignable : Message :=
  ⟨2322, .error, "Type '{0}' is not assignable to type '{1}'."⟩

def argumentNotAssignable : Message :=
  ⟨2345, .error, "Argument of type '{0}' is not assignable to parameter of type '{1}'."⟩

def leftHandSideNotAssignable : Message := ⟨2364, .error, "Left-hand side cannot be assigned to"⟩

def operatorNotApplicable : Message :=
  ⟨2365, .error, "Operator '{0}' cannot be applied to types '{1}' and '{2}'."⟩

def usedBeforeDeclaration : Message :=
  ⟨2448, .error, "Block-scoped variable '{0}' used before its declaration."⟩

def cannotRedeclare : Message := ⟨2451, .error, "Cannot redeclare {0}."⟩

def leftHandSideReadOnly : Message := ⟨2540, .error, "Left-hand side is const or read-only"⟩

def wrongNumberOfArguments : Message := ⟨2554, .error, "Expected N parameters, got N"⟩

def noSuchOptionalParameter : Message := ⟨2561, .error, "No optional parameter named X"⟩

def optionalNameReused : Message := ⟨2562, .error, "Optional name already used"⟩

/-- A check that could not be carried out, with its reason. -/
def checkFailed : Message := ⟨9001, .error, "{0}"⟩

end Message

end PapyrusAnalysis
