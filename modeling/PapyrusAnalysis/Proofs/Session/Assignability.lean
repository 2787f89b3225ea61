import PapyrusAnalysis.Proofs.Session.Hierarchy
import PapyrusAnalysis.Proofs.Text.Folding

/-!
# Which values fit a place

Between scripts, structs and arrays nothing is converted. A value of a script type fits a place of
another one if its script inherits from the other script, arrays fit each other, and a struct fits
itself only. So these types are in order, whatever has been asked before: a value that fits a place
of some type fits wherever the values of that type do. Scripts that extend each other in a circle
fit each other.

## Main definitions

* `Session.IsObject`: a type of scripts, structs or arrays.
* `Session.Accepts`: a value of one type fits a place of another.
* `Session.OrdersObjects`: how such types are in order.

## Main statements

* `Session.objects_ordered`: every session orders the types of objects.
-/

namespace PapyrusAnalysis

/-- Whether a type is that of a script, a struct or an array. -/
def TypeInfo.isObject (info : TypeInfo) : Bool := info.isScript || info.isStruct || info.isArray

/-- A type is of one kind only. -/
theorem TypeInfo.kinds_apart (info : TypeInfo) :
    (info.isScript → info.isStruct = false ∧ info.isArray = false) ∧
      (info.isArray → info.isScript = false ∧ info.isStruct = false) := by
  unfold isScript isStruct isArray
  cases info.form <;> simp

namespace Codebase

variable {c : Codebase} {x y z : TypeId} {info info' info'' : TypeInfo}

/-- When a value of one type of objects fits a place of another. -/
def Takes (c : Codebase) (place value : TypeId) (info info' : TypeInfo) : Prop :=
  value = place ∨ info.isArray ∧ info'.isArray ∨
    info.isScript ∧ info'.isScript ∧ c.Inherits info'.symbol info.symbol

theorem Takes.trans (first : c.Takes x y info info') (second : c.Takes y z info' info'')
    (same : y = x → info' = info) (same' : z = y → info'' = info') :
    c.Takes x z info info'' := by
  rcases first with rfl | ⟨array, array'⟩ | ⟨script, script', inherits⟩
  · rwa [← same rfl]
  · rcases second with rfl | ⟨-, array''⟩ | ⟨script', -⟩
    · rw [same' rfl]
      exact .inr (.inl ⟨array, array'⟩)
    · exact .inr (.inl ⟨array, array''⟩)
    · rw [(info'.kinds_apart.2 array').1] at script'
      cases script'
  · rcases second with rfl | ⟨array', -⟩ | ⟨-, script'', inherits'⟩
    · rw [same' rfl]
      exact .inr (.inr ⟨script, script', inherits⟩)
    · rw [(info'.kinds_apart.1 script').2] at array'
      cases array'
    · exact .inr (.inr ⟨script, script'', inherits'.trans inherits⟩)

/-- Types of different kinds do not take each other's values. -/
theorem Takes.alike (h : c.Takes x y info info') (same : y = x → info' = info) :
    info.isScript = info'.isScript ∧ info.isStruct = info'.isStruct ∧
      info.isArray = info'.isArray := by
  rcases h with rfl | ⟨array, array'⟩ | ⟨script, script', -⟩
  · simp [same rfl]
  · simp [array, array', info.kinds_apart.2 array, info'.kinds_apart.2 array']
  · simp [script, script', info.kinds_apart.1 script, info'.kinds_apart.1 script']

theorem takes_scripts_iff (script : info.isScript) (script' : info'.isScript)
    (same : y = x → info' = info) :
    c.Takes x y info info' ↔ c.Inherits info'.symbol info.symbol := by
  constructor
  · rintro (equal | ⟨array, -⟩ | ⟨-, -, inherits⟩)
    · rw [same equal]
      exact .refl
    · rw [(info.kinds_apart.1 script).2] at array
      cases array
    · exact inherits
  · exact fun inherits => .inr (.inr ⟨script, script', inherits⟩)

theorem takes_struct_iff (struct : info.isStruct) : c.Takes x y info info' ↔ y = x := by
  refine ⟨fun takes => takes.resolve_right ?_, .inl⟩
  rintro (⟨array, -⟩ | ⟨script, -⟩)
  · rw [(info.kinds_apart.2 array).2] at struct
    cases struct
  · rw [(info.kinds_apart.1 script).1] at struct
    cases struct

theorem takes_array_iff (array : info.isArray) (same : y = x → info' = info) :
    c.Takes x y info info' ↔ info'.isArray := by
  refine ⟨fun takes => ?_, fun array' => .inr (.inl ⟨array, array'⟩)⟩
  rw [← (takes.alike same).2.2, array]

end Codebase

namespace Query

open Session

variable {c : Codebase} {s : Session} {place value : TypeId} {info info' : TypeInfo}

/-- Types of objects are no intrinsic types. -/
theorem ne_typeId (settled : s.Settled c) (hi : s.types.get? place = some info)
    (object : info.isObject) (kind : Intrinsic) : kind.typeId ≠ place := by
  rintro rfl
  obtain ⟨found, known, hf⟩ := settled.intrinsic kind
  cases hi.symm.trans known
  simp [TypeInfo.isObject, TypeInfo.isScript, TypeInfo.isStruct, TypeInfo.isArray, hf] at object

/-- A script has the qualified name of another one, in some case, only if it is that script. -/
theorem sameFolded_qualifiedName_iff (firm : c.Firm) (settled : s.Settled c)
    (hi : s.types.get? place = some info) (hi' : s.types.get? value = some info')
    (isScript : info.isScript) (isScript' : info'.isScript) :
    Text.sameFolded info.qualifiedName info'.qualifiedName ↔ info'.symbol = info.symbol := by
  obtain ⟨symbol, hs, kind, -, hname⟩ := (settled.infos hi).script isScript
  obtain ⟨symbol', hs', kind', -, hname'⟩ := (settled.infos hi').script isScript'
  rw [hname, hname']
  constructor
  · intro same
    exact (firm.apart _ _ symbol symbol' hs hs' kind (by simp [Codebase.namesType, kind'])
      (Text.lowercase_eq_of_sameFolded same)).symm
  · intro same
    rw [same, hs] at hs'
    cases hs'
    exact Text.sameFolded_refl _

/-- A script extends the script with the qualified name of another one if and only if it inherits
from it. -/
theorem runs_extendsNamed (firm : c.Firm) (settled : s.Settled c)
    (hi : s.types.get? place = some info) (hi' : s.types.get? value = some info')
    (isScript : info.isScript) (isScript' : info'.isScript) :
    Runs (settling c) s (extendsNamed c value info.qualifiedName) fun answer _ =>
      (answer = true ↔ c.Inherits info'.symbol info.symbol) := by
  refine .bind (runs_scriptHierarchy firm settled ⟨info', hi', isScript', rfl⟩) ?_
  rintro types t grows settled' ⟨ancestors, all, ascends⟩
  have listed : ∀ x ∈ types, ∃ a ∈ ancestors, t.ScriptAt a x :=
    fun x hx => exists_right_of_mem all hx
  refine .known (mapM_ok (g := fun x => ((t.types.get? x).map (·.qualifiedName)).getD "")
    fun x hx => ?_) (.pure settled' ?_)
  · obtain ⟨a, -, found, known, -⟩ := listed x hx
    refine (bind_ok (typeInfo_eq known)).trans ?_
    rw [known]
    rfl
  have here := grows.grown.types hi
  rw [List.any_map, List.any_eq_true, ← ascends.mem_iff]
  constructor
  · rintro ⟨x, hx, same⟩
    obtain ⟨a, ha, found, known, ofScript, rfl⟩ := listed x hx
    simp only [Function.comp_apply, known, Option.map_some, Option.getD_some] at same
    rwa [← (sameFolded_qualifiedName_iff firm settled' here known isScript ofScript).1 same]
  · intro inside
    obtain ⟨x, hx, found, known, ofScript, same⟩ := exists_left_of_mem all inside
    refine ⟨x, hx, ?_⟩
    simp only [Function.comp_apply, known, Option.map_some, Option.getD_some]
    exact (sameFolded_qualifiedName_iff firm settled' here known isScript ofScript).2 same

/-- If the two are not both arrays, then a value fits a place of its own type, and of the type of a
script that its script inherits from. -/
theorem runs_fits_object (firm : c.Firm) (settled : s.Settled c)
    (hi : s.types.get? place = some info) (hi' : s.types.get? value = some info')
    (notArrays : ¬ (info.isArray ∧ info'.isArray)) :
    Runs (settling c) s (do
      if place = value then return true
      if info.isScript then
        if (← typeInfo value).isScript then
          return ← extendsNamed c value info.qualifiedName
      return false) fun answer _ => (answer = true ↔ c.Takes place value info info') := by
  unfold Codebase.Takes
  by_cases same : place = value
  · rw [if_pos same]
    exact .pure settled (by simp [same])
  rw [if_neg same]
  by_cases isScript : info.isScript
  · rw [if_pos isScript]
    refine .known (typeInfo_eq hi') ?_
    by_cases isScript' : info'.isScript
    · rw [if_pos isScript']
      refine (runs_extendsNamed firm settled hi hi' isScript isScript').imp ?_
      intro answer t _ _ h
      simp [h, Ne.symm same, notArrays, isScript, isScript']
    · rw [if_neg isScript']
      exact .pure settled (by simp [Ne.symm same, notArrays, isScript'])
  · rw [if_neg isScript]
    exact .pure settled (by simp [Ne.symm same, notArrays, isScript])

/-- Whether a value fits a place is always answered. -/
theorem runs_isAssignable (firm : c.Firm) (settled : s.Settled c)
    (hi : s.types.get? place = some info) (hi' : s.types.get? value = some info')
    (object : info.isObject) (object' : info'.isObject) :
    Runs (settling c) s (isAssignable c place value) fun answer _ =>
      (answer = true ↔ c.Takes place value info info') := by
  have unconverted : (decide (place = value) || acceptsAll place ||
      decide (value = Intrinsic.any.typeId) || isPrimitive place && isPrimitive value) =
        decide (place = value) := by
    simp [acceptsAll, isPrimitive, ne_typeId settled hi object,
      (ne_typeId settled hi' object' .any).symm]
  unfold isAssignable
  refine .known (typeInfo_eq hi) ?_
  rw [unconverted]
  simp only [decide_eq_true_eq]
  by_cases isArray : info.isArray
  · rw [if_pos isArray]
    refine .known (typeInfo_eq hi') ?_
    by_cases isArray' : info'.isArray
    · rw [if_pos isArray']
      exact .pure settled (by simp [Codebase.Takes, isArray, isArray'])
    · rw [if_neg isArray']
      exact runs_fits_object firm settled hi hi' (by simp [isArray'])
  · rw [if_neg isArray]
    exact runs_fits_object firm settled hi hi' (by simp [isArray])

end Query

namespace Session

variable {c : Codebase} {s : Session} {place value : TypeId} {info info' : TypeInfo}

/-- A type of scripts, structs or arrays. -/
def IsObject (s : Session) (type : TypeId) : Prop :=
  ∃ info, s.types.get? type = some info ∧ info.isObject

/-- A value of one type fits a place of another. -/
def Accepts (c : Codebase) (s : Session) (place value : TypeId) : Prop :=
  ∃ t, Query.isAssignable c place value s = .ok (true, t)

/-- How the types of objects are in order: `Accepts` is a preorder, which goes along inheritance
between scripts, relates all arrays to each other, and relates nothing else. -/
structure OrdersObjects (c : Codebase) (s : Session) : Prop where
  answered : ∀ {place value}, s.IsObject place → s.IsObject value →
    ∃ answer t, Query.isAssignable c place value s = .ok (answer, t)
  refl : ∀ {type}, s.IsObject type → s.Accepts c type type
  trans : ∀ {x y z}, s.IsObject x → s.IsObject y → s.IsObject z →
    s.Accepts c x y → s.Accepts c y z → s.Accepts c x z
  scripts : ∀ {place value a b}, s.ScriptAt a place → s.ScriptAt b value →
    (s.Accepts c place value ↔ Relation.ReflTransGen (s.ExtendsTo c) b a)
  struct : ∀ {place value info}, s.types.get? place = some info → info.isStruct →
    s.IsObject value → (s.Accepts c place value ↔ value = place)
  array : ∀ {place value info info'}, s.types.get? place = some info → info.isArray →
    s.types.get? value = some info' → info'.isObject → (s.Accepts c place value ↔ info'.isArray)
  alike : ∀ {place value info info'}, s.types.get? place = some info → info.isObject →
    s.types.get? value = some info' → info'.isObject → s.Accepts c place value →
    info.isScript = info'.isScript ∧ info.isStruct = info'.isStruct ∧ info.isArray = info'.isArray

theorem Settled.accepts_iff (settled : s.Settled c) (firm : c.Firm)
    (hi : s.types.get? place = some info) (hi' : s.types.get? value = some info')
    (object : info.isObject) (object' : info'.isObject) :
    s.Accepts c place value ↔ c.Takes place value info info' := by
  obtain ⟨answer, t, run, -, -, holds⟩ :=
    Query.exists_ok_of_settling (Query.runs_isAssignable firm settled hi hi' object object')
  rw [← holds, Accepts, run]
  constructor
  · rintro ⟨u, same⟩
    cases same
    rfl
  · rintro rfl
    exact ⟨t, rfl⟩

/-- Every session orders the types of objects. -/
theorem objects_ordered (bound : c.Bound) (apart : c.ScriptsApart) (arises : s.Arises c) :
    s.OrdersObjects c := by
  have firm := bound.firm apart
  have settled := arises.settled firm
  have unique {x y : TypeId} {info info' : TypeInfo} (hi : s.types.get? x = some info)
      (hi' : s.types.get? y = some info') (same : y = x) : info' = info := by
    rw [same, hi] at hi'
    exact (Option.some.inj hi').symm
  have ofScript {info : TypeInfo} (h : info.isScript) : info.isObject := by
    simp [TypeInfo.isObject, h]
  constructor
  case answered =>
    rintro place value ⟨info, hi, object⟩ ⟨info', hi', object'⟩
    obtain ⟨answer, t, run, -⟩ :=
      Query.exists_ok_of_settling (Query.runs_isAssignable firm settled hi hi' object object')
    exact ⟨answer, t, run⟩
  case refl =>
    rintro type ⟨info, hi, object⟩
    exact (settled.accepts_iff firm hi hi object object).2 (.inl rfl)
  case trans =>
    rintro x y z ⟨info, hi, object⟩ ⟨info', hi', object'⟩ ⟨info'', hi'', object''⟩ first second
    rw [settled.accepts_iff firm hi hi' object object'] at first
    rw [settled.accepts_iff firm hi' hi'' object' object''] at second
    exact (settled.accepts_iff firm hi hi'' object object'').2
      (first.trans second (unique hi hi') (unique hi' hi''))
  case scripts =>
    rintro place value _ _ ⟨info, hi, script, rfl⟩ ⟨info', hi', script', rfl⟩
    rw [settled.accepts_iff firm hi hi' (ofScript script) (ofScript script'),
      settled.inherits_eq firm]
    exact Codebase.takes_scripts_iff script script' (unique hi hi')
  case struct =>
    rintro place value info hi struct ⟨info', hi', object'⟩
    rw [settled.accepts_iff firm hi hi' (by simp [TypeInfo.isObject, struct]) object']
    exact Codebase.takes_struct_iff struct
  case array =>
    intro place value info info' hi array hi' object'
    rw [settled.accepts_iff firm hi hi' (by simp [TypeInfo.isObject, array]) object']
    exact Codebase.takes_array_iff array (unique hi hi')
  case alike =>
    intro place value info info' hi object hi' object' accepts
    rw [settled.accepts_iff firm hi hi' object object'] at accepts
    exact accepts.alike (unique hi hi')

/-- Two scripts that extend each other, and a struct:

    ScriptName A Extends B
    Struct S
    EndStruct

    ScriptName B Extends A -/
def mutualForms : List Form :=
  [.identifier "A", .identifier "B", .scriptHeader ⟨0⟩ (some ⟨1⟩) ∅, .identifier "S",
    .struct ⟨3⟩ [], .script ⟨2⟩ [] [⟨4⟩],
    .identifier "B", .identifier "A", .scriptHeader ⟨6⟩ (some ⟨7⟩) ∅, .script ⟨8⟩ [] []]

theorem mutual_scripts_ordered : ∃ (c : Codebase) (s : Session) (a struct b array : TypeId),
    c.tree = .ofForms mutualForms ∧ c.Bound ∧ c.ScriptsApart ∧ s.Arises c ∧
    (∀ type ∈ [a, struct, b, array], s.IsObject type) ∧ a ≠ b ∧ s.Accepts c a b ∧
    s.Accepts c b a ∧ ¬ s.Accepts c struct a ∧ s.OrdersObjects c := by
  let test (c : Codebase) (s : Session) : Bool :=
    [8, 9, 7, 10].all (fun i => (s.types.get? ⟨i⟩).any TypeInfo.isObject) &&
      ((s.types.get? ⟨9⟩).any TypeInfo.isStruct &&
      ((Query.isAssignable c ⟨8⟩ ⟨7⟩ s).toOption.any (fun (r : Bool × Session) => r.1) &&
      (Query.isAssignable c ⟨7⟩ ⟨8⟩ s).toOption.any (fun (r : Bool × Session) => r.1)))
  obtain ⟨p, run, fits⟩ := exists_ok_of_any (o := Program.ofTree (.ofForms mutualForms))
    (f := fun p => decide (p.tree = .ofForms mutualForms ∧ p.codebase.Unambiguous) &&
      (start p.codebase).toOption.any fun first =>
        ((Question.resolveType "B" []).ask p.codebase first).toOption.any
          fun (r : Unit × Session) =>
            ((Question.arrayTypeFor "A").ask p.codebase r.2).toOption.any
              fun (q : Unit × Session) => test p.codebase q.2)
    (by decide +kernel)
  obtain ⟨settings, fits⟩ := Bool.and_eq_true_iff.1 fits
  obtain ⟨tree, unambiguous⟩ := of_decide_eq_true settings
  obtain ⟨first, started, fits⟩ := exists_ok_of_any fits
  obtain ⟨⟨_, second⟩, asked, fits⟩ := exists_ok_of_any fits
  obtain ⟨⟨_, s⟩, asked', fits⟩ := exists_ok_of_any fits
  obtain ⟨all, fits⟩ := Bool.and_eq_true_iff.1 fits
  obtain ⟨ofStruct, fits⟩ := Bool.and_eq_true_iff.1 fits
  obtain ⟨fits, fits'⟩ := Bool.and_eq_true_iff.1 fits
  obtain ⟨⟨_, t⟩, assigned, rfl⟩ := exists_ok_of_any fits
  obtain ⟨⟨_, u⟩, assigned', rfl⟩ := exists_ok_of_any fits'
  obtain ⟨info, hi, isStruct⟩ := (Option.any_eq_true _ _).1 ofStruct
  have objects : ∀ type ∈ [8, 9, 7, 10].map TypeId.mk, s.IsObject type := by
    intro type htype
    obtain ⟨i, hi, rfl⟩ := List.mem_map.1 htype
    exact (Option.any_eq_true _ _).1 (List.all_eq_true.1 all i hi)
  have bound : p.codebase.Bound := .program run
  have apart := Codebase.Unambiguous.scriptsApart unambiguous
  have arises : s.Arises p.codebase := ⟨first, started, .ask _ (.ask _ .refl asked) asked'⟩
  have order := objects_ordered bound apart arises
  refine ⟨p.codebase, s, ⟨8⟩, ⟨9⟩, ⟨7⟩, ⟨10⟩, tree, bound, apart, arises, objects, by decide,
    ⟨t, assigned⟩, ⟨u, assigned'⟩, ?_, order⟩
  rw [order.struct hi isStruct (objects ⟨8⟩ (by decide))]
  decide

end Session

end PapyrusAnalysis
