import PapyrusAnalysis.Proofs.Coupling
import PapyrusAnalysis.Proofs.Session.Soundness

/-!
# Corresponding sessions

Two sessions about one codebase number their types and symbols as they come. A `Correspondence` says
which sessions correspond and which of their types and symbols do. Corresponding things look alike:
they differ in numbers, and in nothing that a question could tell. Everything that is said about
questions is said about two runs of a question in corresponding sessions; that a session corresponds
to itself is one case of it.

## Main definitions

* `Symbol.Alike`, `TypeInfo.Alike`: symbols and types that differ in numbers only.
* `Correspondence`: which sessions correspond, and what corresponds in them.
* `Correspondence.Lawful`: what makes questions in corresponding sessions end alike.
-/

namespace PapyrusAnalysis

/-- Two symbols differ at most in their numbers and those of the symbols they refer to. -/
structure Symbol.Alike (R : SymbolId → SymbolId → Prop) (x y : Symbol) : Prop where
  id : R x.id y.id
  kind : y.kind = x.kind
  name : y.name = x.name
  qualifiedName : y.qualifiedName = x.qualifiedName
  declaration : y.declaration = x.declaration
  importedScript : y.importedScript = x.importedScript
  extendedScript : y.extendedScript = x.extendedScript
  valueType : y.valueType = x.valueType
  traits : y.traits = x.traits
  members : List.Forall₂ R x.members y.members
  parameters : List.Forall₂ R x.parameters y.parameters
  imports : List.Forall₂ R x.imports y.imports

theorem Symbol.Alike.refl {R : SymbolId → SymbolId → Prop} {x : Symbol}
    (own : R x.id x.id) (h : ∀ id ∈ x.members ++ x.parameters ++ x.imports, R id id) :
    x.Alike R x where
  id := own
  kind := rfl
  name := rfl
  qualifiedName := rfl
  declaration := rfl
  importedScript := rfl
  extendedScript := rfl
  valueType := rfl
  traits := rfl
  members := List.forall₂_same.2 fun id hid => h id (by simp [hid])
  parameters := List.forall₂_same.2 fun id hid => h id (by simp [hid])
  imports := List.forall₂_same.2 fun id hid => h id (by simp [hid])

/-- Two types are made of the same, up to the numbers of the structs of a script. -/
inductive TypeForm.Alike (T : TypeId → TypeId → Prop) : TypeForm → TypeForm → Prop where
  | intrinsic (kind : Intrinsic) : Alike T (.intrinsic kind) (.intrinsic kind)
  | script {table table' : Registry String TypeId}
      (h : ∀ key, Option.Rel T (table.find? key) (table'.find? key)) :
      Alike T (.script table) (.script table')
  | struct (script script' : TypeId) : Alike T (.struct script) (.struct script')
  | array (element : String) : Alike T (.array element) (.array element)

/-- Two types differ at most in the numbers of what they refer to. -/
structure TypeInfo.Alike (T : TypeId → TypeId → Prop) (R : SymbolId → SymbolId → Prop)
    (x y : TypeInfo) : Prop where
  name : y.name = x.name
  qualifiedName : y.qualifiedName = x.qualifiedName
  symbol : R x.symbol y.symbol
  form : x.form.Alike T y.form

namespace TypeInfo.Alike

variable {T : TypeId → TypeId → Prop} {R : SymbolId → SymbolId → Prop} {x y : TypeInfo}

theorem shape (h : x.Alike T R y) : y.isIntrinsic = x.isIntrinsic ∧ y.isScript = x.isScript ∧
    y.isStruct = x.isStruct ∧ y.isArray = x.isArray := by
  obtain ⟨_, _, _, _, form⟩ := x
  obtain ⟨_, _, _, _, form'⟩ := y
  have alike : form.Alike T form' := h.form
  cases alike <;> exact ⟨rfl, rfl, rfl, rfl⟩

theorem isIntrinsic (h : x.Alike T R y) : y.isIntrinsic = x.isIntrinsic := h.shape.1

theorem isScript (h : x.Alike T R y) : y.isScript = x.isScript := h.shape.2.1

theorem isStruct (h : x.Alike T R y) : y.isStruct = x.isStruct := h.shape.2.2.1

theorem isArray (h : x.Alike T R y) : y.isArray = x.isArray := h.shape.2.2.2

end TypeInfo.Alike

/-- Which sessions correspond, and which of their types and symbols. -/
structure Correspondence where
  related : Session → Session → Prop
  types : Session → Session → TypeId → TypeId → Prop
  symbols : Session → Session → SymbolId → SymbolId → Prop
  /-- The faults that questions may meet. -/
  tolerates : Fault → Prop

namespace Correspondence

/-- Questions in corresponding sessions. -/
def coupling (R : Correspondence) : Coupling Session where
  related := R.related
  grows := Session.Follows
  refl := .refl
  trans := .trans
  tolerates := R.tolerates

/-- Symbols of two sessions that look alike. -/
abbrev symbolsAlike (R : Correspondence) (s t : Session) : Symbol → Symbol → Prop :=
  Symbol.Alike (R.symbols s t)

/-- Types of two sessions that look alike. -/
abbrev typesAlike (R : Correspondence) (s t : Session) : TypeInfo → TypeInfo → Prop :=
  TypeInfo.Alike (R.types s t) (R.symbols s t)

/-- Types or none that correspond. -/
def Found (R : Correspondence) (a b : Option TypeId) (s t : Session) : Prop :=
  Option.Rel (R.types s t) a b

/-- Types or none that correspond, and that arrays can have elements of. -/
def Resolved (R : Correspondence) (a b : Option TypeId) (s t : Session) : Prop :=
  Option.Rel (fun x y => R.types s t x y ∧ s.IsElement x) a b

/-- Types or none that the symbol of a script leads to. -/
def Scripted (R : Correspondence) (c : Codebase) (id : SymbolId) (a b : Option TypeId)
    (s t : Session) : Prop :=
  R.Found a b s t ∧ ∀ symbol type, c.symbols.get? id = some symbol → a = some type →
    ∃ info, s.types.get? type = some info ∧ info.isDeclared ∧
      Text.lowercase info.qualifiedName = Session.qualifiedKey symbol

theorem Resolved.found {R : Correspondence} {a b : Option TypeId} {s t : Session}
    (h : R.Resolved a b s t) : R.Found a b s t :=
  Option.Rel.imp h fun _ _ h => h.1

/-- What makes questions about a codebase in corresponding sessions end alike: corresponding things
look alike, and making a script or an array type leads to corresponding things. -/
structure Lawful (R : Correspondence) (c : Codebase) : Prop where
  codebase : c.Sound
  sound : ∀ {s t}, R.related s t → s.Sound c
  pending : ∀ {s t}, R.related s t → s.pending = t.pending
  withPending : ∀ {s t}, R.related s t → ∀ nodes,
    R.related { s with pending := nodes } { t with pending := nodes }
  types_mono : ∀ {s t s' t' a b}, R.types s t a b → s.Extends s' → t.Extends t' → R.types s' t' a b
  symbols_mono : ∀ {s t s' t' a b}, R.symbols s t a b → s.Extends s' → t.Extends t' →
    R.symbols s' t' a b
  info : ∀ {s t a b}, R.related s t → R.types s t a b → ∃ x y, s.types.get? a = some x ∧
    t.types.get? b = some y ∧ R.typesAlike s t x y
  inj : ∀ {s t a b a' b'}, R.related s t → R.types s t a b → R.types s t a' b' → (a = a' ↔ b = b')
  intrinsic : ∀ {s t}, R.related s t → ∀ kind : Intrinsic, R.types s t kind.typeId kind.typeId
  symbol : ∀ {s t a b}, R.related s t → R.symbols s t a b →
    Option.Rel (R.symbolsAlike s t) (s.symbol? c a) (t.symbol? c b)
  own : ∀ {s t id}, R.related s t → c.symbols.owns id → R.symbols s t id id
  scriptType : ∀ {s t a b}, R.related s t → R.symbols s t a b →
    Coupled R.coupling s t (Query.scriptType c a) (Query.scriptType c b) (R.Scripted c a)
  arrayOf : ∀ {s t a b x y}, R.related s t → R.types s t a b → s.IsElement a →
    s.types.get? a = some x → t.types.get? b = some y →
    Coupled R.coupling s t (Query.arrayOf x.qualifiedName) (Query.arrayOf y.qualifiedName) R.Found

namespace Lawful

variable {c : Codebase} {R : Correspondence} {s t : Session} {α β : Type}
  {post : α → β → Session → Session → Prop}

/-- Reading corresponding symbols. -/
theorem symbol? (law : R.Lawful c) (rel : R.related s t) {a b : SymbolId}
    (hab : R.symbols s t a b) {f : Option Symbol → Query α} {g : Option Symbol → Query β}
    (none : Coupled R.coupling s t (f none) (g none) post)
    (some : ∀ x y, s.symbol? c a = some x → t.symbol? c b = some y → R.symbolsAlike s t x y →
      Coupled R.coupling s t (f (some x)) (g (some y)) post) :
    Coupled R.coupling s t (Query.symbol? c a >>= f) (Query.symbol? c b >>= g) post := by
  refine .known rfl rfl ?_
  have alike := law.symbol rel hab
  generalize s.symbol? c a = x at alike some
  generalize t.symbol? c b = y at alike some
  cases alike with
  | none => exact none
  | some h => exact some _ _ rfl rfl h

/-- A symbol of the codebase looks like itself. -/
theorem own_alike (law : R.Lawful c) (rel : R.related s t) {id : SymbolId} {symbol : Symbol}
    (hs : c.symbols.get? id = some symbol) : R.symbolsAlike s t symbol symbol := by
  have owned := SymbolTable.owns_of_get? hs
  have alike := law.symbol rel (law.own rel owned)
  rw [Session.symbol?_own s owned, Session.symbol?_own t owned, hs] at alike
  cases alike with
  | some h => exact h

/-- Reading a symbol of the codebase. -/
theorem ownSymbol {id : SymbolId} {symbol : Symbol}
    (hs : c.symbols.get? id = some symbol) {f : Option Symbol → Query α}
    {g : Option Symbol → Query β}
    (h : Coupled R.coupling s t (f (some symbol)) (g (some symbol)) post) :
    Coupled R.coupling s t (Query.symbol? c id >>= f) (Query.symbol? c id >>= g) post := by
  have known (s : Session) : Query.symbol? c id s = .ok (some symbol, s) := by
    rw [Query.symbol?_eq, Session.symbol?_own s (SymbolTable.owns_of_get? hs), hs]
  exact .known (known s) (known t) h

/-- Reading corresponding types. -/
theorem typeInfo (law : R.Lawful c) (rel : R.related s t) {a b : TypeId} (hab : R.types s t a b)
    {f : TypeInfo → Query α} {g : TypeInfo → Query β}
    (next : ∀ x y, s.types.get? a = some x → t.types.get? b = some y → R.typesAlike s t x y →
      Coupled R.coupling s t (f x) (g y) post) :
    Coupled R.coupling s t (Query.typeInfo a >>= f) (Query.typeInfo b >>= g) post := by
  obtain ⟨x, y, hx, hy, alike⟩ := law.info rel hab
  refine .known (a := x) (b := y) ?_ ?_ (next x y hx hy alike)
  · exact liftM_ok (TypeTable.get_eq_ok hx) s
  · exact liftM_ok (TypeTable.get_eq_ok hy) t

end Lawful

end Correspondence

end PapyrusAnalysis
