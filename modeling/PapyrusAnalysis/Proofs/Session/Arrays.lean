import PapyrusAnalysis.Proofs.Session.FullNames
import PapyrusAnalysis.Proofs.Session.Lasting
import PapyrusAnalysis.Proofs.Session.Membership

/-!
# Array types

An array type knows the type of its elements by name only. Array types are kept by these names, in
lower case. A type name in a tree that stands for an array is resolved where it stands, among the
scripts that are extended, the imports and the namespace there, and the array is made for the
qualified name of the type that was found. The elements of the array are then looked up by this
name without any namespace.

If types are known by their qualified names, then this leads back to the type that was found, and
the arrays are as many as the types of their elements.

## Main definitions

* `Query.referent`: what a type name stands for, its brackets left aside.
* `Session.Arrayed`: the array types that are kept have elements.
* `Session.IsArrayOf`: an array type with elements of a type.

## Main statements

* `Query.arrays_mirror_elements`: what the type names of arrays stand for.
-/

namespace PapyrusAnalysis

/-! ## Names in a tree -/

namespace Query

open Session

variable {c : Codebase} {s t : Session} {node identifier : NodeId} {type : TypeId}

/-- Some full name leads to a type. -/
def Nameable (c : Codebase) (found : Option TypeId) (s : Session) : Prop :=
  ∀ type, found = some type → ∃ name, s.Denotes c name type

theorem nameable_none (s : Session) : Nameable c none s := fun _ h => by cases h

theorem lasts_resolveType (firm : c.Firm) (founded : s.Founded c) (name : String)
    (containers : List String) : Lasts c s (resolveType c name containers) (Nameable c) := by
  induction containers generalizing s with
  | nil => exact .imp (lasts_denotes firm founded name) fun _ _ _ _ h type ht => ⟨_, h type ht⟩
  | cons container rest ih =>
    refine .bind (lasts_denotes firm founded _) fun found t _ kept denotes => ?_
    cases found with
    | some type => exact .pure kept fun _ ht => ⟨_, denotes _ ht⟩
    | none => exact ih kept

theorem lasts_resolveIn (firm : c.Firm) (founded : s.Founded c) {symbol : Option Symbol}
    (own : ∀ x, symbol = some x → ∃ id, c.symbols.get? id = some x) (name : String) :
    Lasts c s (resolveIn c symbol name) (Nameable c) := by
  unfold resolveIn
  cases symbol with
  | none =>
    have nothing : Lasts c s (pure [] : Query (List String)) fun _ _ => True :=
      .pure founded trivial
    refine .bind nothing fun imports t _ kept _ => ?_
    refine .bind (lasts_resolveType firm kept name imports) fun found t _ kept nameable => ?_
    cases found with
    | some type => exact .pure kept nameable
    | none => exact .pure kept (nameable_none _)
  | some symbol =>
    obtain ⟨id, hs⟩ := own symbol rfl
    refine .bind (lasts_importNames firm founded hs) fun imports t _ kept _ => ?_
    refine .bind (lasts_resolveType firm kept name imports) fun found t _ kept nameable => ?_
    cases found with
    | some type => exact .pure kept nameable
    | none =>
      dsimp only
      split
      · exact lasts_resolveType firm kept name _
      · exact .pure kept (nameable_none _)

/-- What a name at a node is resolved to lasts. -/
theorem lasts_resolveAt (firm : c.Firm) (founded : s.Founded c) (node : NodeId) (name : String) :
    Lasts c s (resolveAt c node name) (Nameable c) := by
  rw [resolveAt_eq]
  have around : Lasts c s (scriptAround c node) fun script _ =>
      ∀ id, script = some id → c.symbols.owns id := by
    refine .lift fun root _ => .pure founded fun id h => ?_
    obtain ⟨node, -, hid⟩ := Option.bind_eq_some_iff.1 h
    obtain ⟨symbol, hs, -⟩ := firm.symbols.symbolOf hid
    exact SymbolTable.owns_of_get? hs
  refine .bind around fun script s₁ _ founded₁ owned => ?_
  cases script with
  | none => exact lasts_resolveIn firm founded₁ (fun _ h => by cases h) name
  | some script =>
    have owned := owned script rfl
    have rest {t : Session} (kept : t.Founded c) :
        Lasts c t (Query.symbol? c script >>= (resolveIn c · name)) (Nameable c) := by
      refine .bind (lasts_symbol? kept (knows_of_owns t owned)) fun symbol u _ kept' hs => ?_
      refine lasts_resolveIn firm kept' (fun x hx => ⟨script, ?_⟩) name
      rw [← symbol?_own u owned, hs, hx]
    refine .bind (lasts_scriptType firm founded₁ owned) fun found s₂ _ founded₂ _ => ?_
    cases found with
    | none => exact rest founded₂
    | some type =>
      refine .bind (lasts_hierarchyFrom firm founded₂ _ [] type) fun hierarchy s₃ _ founded₃ _ => ?_
      have names : Lasts c s₃ (hierarchy.mapM fun t => do return (← typeInfo t).qualifiedName)
          fun names _ => ∀ _ ∈ names, True := by
        refine .mapM founded₃ (fun _ h => h) fun t _ u _ kept => ?_
        exact .bind (lasts_typeInfo kept t) fun info v _ kept' _ => .pure kept' trivial
      refine .bind names fun namespaces s₄ _ founded₄ _ => ?_
      refine .bind (lasts_resolveType firm founded₄ name namespaces)
        fun found s₅ _ founded₅ nameable => ?_
      cases found with
      | some type => exact .pure founded₅ nameable
      | none => exact rest founded₅

/-! ### Names are resolved without a fault -/

theorem runs_resolveType (firm : c.Firm) (settled : s.Settled c) (name : String)
    (containers : List String) :
    Runs (settling c) s (resolveType c name containers) fun _ _ => True := by
  induction containers generalizing s with
  | nil => exact (runs_resolveFullName firm settled name).imp fun _ _ _ _ _ => trivial
  | cons container rest ih =>
    refine .bind (runs_resolveFullName firm settled _) fun found t _ kept _ => ?_
    cases found with
    | some type => exact .pure kept trivial
    | none => exact ih kept

theorem runs_resolveIn (firm : c.Firm) (settled : s.Settled c) (symbol : Option Symbol)
    (name : String) : Runs (settling c) s (resolveIn c symbol name) fun _ _ => True := by
  unfold resolveIn
  cases symbol with
  | none =>
    refine .known (show (pure [] : Query (List String)) s = .ok ([], s) from rfl) ?_
    refine .bind (runs_resolveType firm settled name []) fun found t _ kept _ => ?_
    cases found <;> exact .pure kept trivial
  | some symbol =>
    refine .known (show importNames c symbol s = .ok (_, s) from rfl) ?_
    refine .bind (runs_resolveType firm settled name _) fun found t _ kept _ => ?_
    cases found with
    | some type => exact .pure kept trivial
    | none =>
      dsimp only
      split
      · exact runs_resolveType firm kept name _
      · exact .pure kept trivial

theorem runs_resolveAt (firm : c.Firm) (settled : s.Settled c) (has : c.tree.Has node)
    (name : String) : Runs (settling c) s (resolveAt c node name) fun _ _ => True := by
  rw [resolveAt_eq]
  obtain ⟨script, around, isScript⟩ := scriptAround_eq firm.symbols has
  refine .known (around s) ?_
  cases script with
  | none => exact runs_resolveIn firm settled none name
  | some script =>
    obtain ⟨symbol, hs, kind⟩ := isScript script rfl
    refine .bind (runs_scriptType firm settled hs kind) ?_
    rintro _ s₁ - settled₁ ⟨type, rfl, scriptAt⟩
    refine .bind (runs_scriptHierarchy firm settled₁ scriptAt) ?_
    rintro types s₂ - settled₂ ⟨ancestors, all, -⟩
    have names : ∃ names,
        (types.mapM fun t => do return (← typeInfo t).qualifiedName : Query (List String)) s₂ =
          .ok (names, s₂) := by
      clear scriptAt
      induction all with
      | nil => exact ⟨[], rfl⟩
      | cons scriptAt _ ih =>
        obtain ⟨info, hi, -⟩ := scriptAt
        obtain ⟨names, run⟩ := ih
        refine ⟨info.qualifiedName :: names, ?_⟩
        rw [List.mapM_cons, bind_assoc, bind_ok (typeInfo_eq hi), pure_bind, bind_ok run]
        rfl
    obtain ⟨names, run⟩ := names
    refine .known run (.bind (runs_resolveType firm settled₂ name names) ?_)
    intro found s₃ _ settled₃ _
    cases found with
    | some type => exact .pure settled₃ trivial
    | none => exact .known (symbol?_eq c script s₃) (runs_resolveIn firm settled₃ _ name)

/-! ### Type names -/

/-- What a type name stands for, the brackets of an array left aside. -/
def referent (c : Codebase) (node : NodeId) : Query (Option TypeId) := do
  let some name ← c.tree.nameOf node | return none
  resolveAt c node name

theorem lasts_referent (firm : c.Firm) (founded : s.Founded c) (node : NodeId) :
    Lasts c s (referent c node) (Nameable c) := by
  refine .lift fun name _ => ?_
  cases name with
  | none => exact .pure founded (nameable_none s)
  | some name => exact lasts_resolveAt firm founded node name

theorem runs_referent (firm : c.Firm) (settled : s.Settled c) (descending : c.tree.Descending)
    (has : c.tree.Has node) : Runs (settling c) s (referent c node) fun _ _ => True := by
  obtain ⟨name, hname⟩ := Tree.nameOf_eq_ok descending has
  refine .known (liftM_ok hname s) ?_
  cases name with
  | none => exact .pure settled trivial
  | some name => exact runs_resolveAt firm settled has name

theorem Plain.referent {arrays : Prop} (node : NodeId) : Plain c arrays (referent c node) := by
  refine .bind (.lift _) fun name => ?_
  split
  · exact .resolveAt node _
  · exact .pure none

theorem typeOfTypeName_of_none {isArray : Bool}
    (hform : c.tree.form node = .ok (.typeName identifier isArray))
    (run : referent c node s = .ok (none, t)) : typeOfTypeName c node s = .ok (none, t) := by
  obtain ⟨name, u, named, rest⟩ := bind_eq_ok run
  obtain ⟨hname, rfl⟩ := liftM_eq_ok named
  refine (bind_ok (liftM_ok hform _)).trans ((bind_ok (liftM_ok hname u)).trans ?_)
  cases name with
  | none =>
    cases rest
    rfl
  | some name => exact bind_ok rest

theorem typeOfTypeName_of_some {isArray : Bool}
    (hform : c.tree.form node = .ok (.typeName identifier isArray))
    (run : referent c node s = .ok (some type, t)) :
    typeOfTypeName c node s = orArray c isArray type t := by
  obtain ⟨name, u, named, rest⟩ := bind_eq_ok run
  obtain ⟨hname, rfl⟩ := liftM_eq_ok named
  refine (bind_ok (liftM_ok hform _)).trans ((bind_ok (liftM_ok hname u)).trans ?_)
  cases name with
  | none => cases rest
  | some name => exact bind_ok rest

end Query

/-! ## The array types of a session -/

namespace Session

variable {c : Codebase} {s t u : Session} {type type' array array' : TypeId} {info : TypeInfo}

/-- A session has the same array types as an earlier one. -/
structure SameArrays (s t : Session) : Prop where
  arrays : t.arrays = s.arrays
  synthetic : t.synthetic = s.synthetic
  types : ∀ {id info}, t.types.get? id = some info → info.isArray → s.types.get? id = some info

theorem SameArrays.refl (s : Session) : s.SameArrays s := ⟨rfl, rfl, fun hi _ => hi⟩

theorem SameArrays.trans (h : s.SameArrays t) (h' : t.SameArrays u) : s.SameArrays u where
  arrays := h'.arrays.trans h.arrays
  synthetic := h'.synthetic.trans h.synthetic
  types hi isArray := h.types (h'.types hi isArray) isArray

theorem sameArrays_withScript (s : Session) (script : SymbolId) (symbol : Symbol)
    (structs : List (SymbolId × Symbol)) : s.SameArrays (s.withScript script symbol structs) where
  arrays := rfl
  synthetic := rfl
  types hi isArray := by
    rcases TypeTable.get?_extend_cases hi with old | ⟨i, _, -, new, rfl⟩
    · exact old
    · rcases scriptBlock_cases new with ⟨-, rfl⟩ | ⟨j, entry, -, -, rfl⟩ <;> cases isArray

theorem sameArrays_scriptType {script : SymbolId} {answer : Option TypeId}
    (run : Query.scriptType c script s = .ok (answer, t)) : s.SameArrays t := by
  rw [Query.scriptType_eq] at run
  split at run
  · cases run
    exact .refl s
  split at run
  · cases run
    exact .refl s
  split at run
  · cases run
    exact .refl s
  split at run
  · cases run
    exact .refl s
  · cases run
    exact sameArrays_withScript s script _ _

/-- A question that makes no array type leaves the array types as they are. -/
theorem sameArrays_of_plain {α : Type} {x : Query α} (h : Query.Plain c False x) {a : α}
    (run : x s = .ok (a, t)) : s.SameArrays t := by
  induction h generalizing s t with
  | read f =>
    cases run
    exact .refl s
  | lift o =>
    obtain ⟨-, rfl⟩ := liftM_eq_ok run
    exact .refl t
  | script id => exact sameArrays_scriptType run
  | array allowed => exact allowed.elim
  | bind _ _ first next =>
    obtain ⟨b, u, ran, rest⟩ := bind_eq_ok run
    exact (first ran).trans (next b rest)

/-- What is true of the array types of every session: they are kept by names that lead to types. -/
structure Arrayed (c : Codebase) (s : Session) : Prop extends Lodged c s where
  kept : ∀ {key id}, s.arrays.find? key = some id → ∃ element start type,
    s.types.get? id = some (arrayInfo element start id) ∧ Text.lowercase element = key ∧
      s.Denotes c element type

/-- Sessions grow, and the array types that are kept stay there. -/
structure RetainsArrays (c : Codebase) (s t : Session) : Prop extends Retains c s t where
  arrays : ∀ {key id}, s.arrays.find? key = some id → t.arrays.find? key = some id

theorem Arrayed.of_same (h : Arrayed c s) (lodged : t.Lodged c) (grown : s.Extends t)
    (same : t.arrays = s.arrays) : Arrayed c t where
  toLodged := lodged
  kept hfind := by
    rw [same] at hfind
    obtain ⟨element, start, type, hi, hkey, denotes⟩ := h.kept hfind
    exact ⟨element, start, type, grown.types hi, hkey, denotes.extends grown⟩

theorem arrayed_initial (room : c.symbols.base + c.symbols.size + 7 ≤ SymbolId.limit) :
    Arrayed c (initial c) where
  toLodged := lodged_initial room
  kept hfind := by cases hfind

theorem Arrayed.withArray (h : Arrayed c s) {element : String}
    (room : s.nextSymbol + 27 ≤ SymbolId.limit) (denotes : s.Denotes c element type) :
    Arrayed c (s.withArray element) where
  toLodged := h.toLodged.withArray room
  kept {key id} hfind := by
    have grown := extends_withArray s element
    change (s.arrays.insert _ _).find? key = some id at hfind
    rw [Registry.find?_insert] at hfind
    split at hfind
    · rename_i hkey
      cases hfind
      exact ⟨element, _, type, get?_withArray s element, hkey, denotes.extends grown⟩
    · obtain ⟨other, start, type, hi, hkey, denotes⟩ := h.kept hfind
      exact ⟨other, start, type, grown.types hi, hkey, denotes.extends grown⟩

/-- How the array types of a session grow. -/
def arraying (c : Codebase) : Conduct Session where
  keeps := Arrayed c
  grows := RetainsArrays c
  refl s := ⟨(naming c).refl s, fun h => h⟩
  trans h h' := ⟨(naming c).trans h.toRetains h'.toRetains, fun hfind => h'.arrays (h.arrays hfind)⟩
  tolerates _ := True

theorem steps_arraying (firm : c.Firm) : Query.Steps c (arraying c) where
  scriptType id := by
    intro s answer t kept run
    obtain ⟨retains, lodged⟩ := (steps_lodging firm).scriptType id kept.toLodged run
    have same := (sameArrays_scriptType run).arrays
    exact ⟨⟨retains, fun hfind => by rwa [same]⟩, kept.of_same lodged retains.grown same⟩
  arrayOf element := by
    intro s answer t kept named run
    have lodged := named.imp fun _ => Arrayed.toLodged
    obtain ⟨retains, -⟩ := (steps_lodging firm).arrayOf element kept.toLodged lodged run
    rw [Query.arrayOf_eq element kept.room] at run
    split at run
    · cases run
      exact ⟨(arraying c).refl _, kept⟩
    rename_i fresh
    split at run
    · rename_i room
      cases run
      obtain ⟨before, type, kept', found⟩ := named
      have denotes := (Query.lasts_denotes firm kept'.toFounded element found).2.2.1 type rfl
      refine ⟨⟨retains, fun {key id} hfind => ?_⟩, kept.withArray room denotes⟩
      change (s.arrays.insert _ _).find? key = some id
      rw [Registry.find?_insert, if_neg, hfind]
      rintro rfl
      cases fresh.symm.trans hfind
    · cases run
  pending {s t node} kept :=
    ⟨kept.of_same (kept.toLodged.withPending _) ⟨fun h => h, fun h => h⟩ rfl, fun grows kept' =>
      ⟨⟨⟨⟨grows.grown.types, grows.grown.synthetic⟩, grows.named⟩, grows.arrays⟩,
        kept'.of_same (kept'.toLodged.withPending _) ⟨fun h => h, fun h => h⟩ rfl⟩⟩

/-- Whatever has been asked, the array types are kept by names that lead to types. -/
theorem Arises.arrayed (arises : s.Arises c) (firm : c.Firm) : s.Arrayed c := by
  obtain ⟨first, started, leads⟩ := arises
  rw [start_eq] at started
  split at started
  · cases started
    exact (leads.steady (steps_arraying firm) (arrayed_initial (by assumption))).2
  · cases started

/-! ## Arrays and their elements -/

/-- An array type with elements of a type. -/
def IsArrayOf (c : Codebase) (s : Session) (array type : TypeId) : Prop :=
  (∃ info, s.types.get? array = some info ∧ info.isArray) ∧
    Query.elementType c array s = .ok (some type, s)

/-- The array type of a type that is known by its qualified name is kept. -/
def HasArray (c : Codebase) (s : Session) (type array : TypeId) : Prop :=
  ∃ info, s.types.get? type = some info ∧ s.Denotes c info.qualifiedName type ∧
    s.arrays.find? (Text.lowercase info.qualifiedName) = some array

theorem HasArray.retains (h : s.HasArray c type array) (g : s.RetainsArrays c t) :
    t.HasArray c type array := by
  obtain ⟨info, hi, denotes, hfind⟩ := h
  exact ⟨info, g.grown.types hi, denotes.extends g.grown, g.arrays hfind⟩

/-- The elements of an array are looked up by a name that the qualified name of the type agrees with
in lower case. -/
theorem HasArray.isArrayOf (h : s.HasArray c type array) (legible : c.Legible)
    (arrayed : s.Arrayed c) : s.IsArrayOf c array type := by
  obtain ⟨info, -, denotes, hfind⟩ := h
  obtain ⟨element, start, type', hi, hkey, denotes'⟩ := arrayed.kept hfind
  obtain rfl := denotes'.unique denotes legible arrayed.toLodged hkey
  refine ⟨⟨_, hi, rfl⟩, (bind_ok (Query.typeInfo_eq hi)).trans ?_⟩
  exact denotes'.run legible.firm arrayed.toSettled

theorem HasArray.eq_iff (h : s.HasArray c type array) (h' : s.HasArray c type' array')
    (legible : c.Legible) (arrayed : s.Arrayed c) : array' = array ↔ type' = type := by
  constructor
  · rintro rfl
    cases (h'.isArrayOf legible arrayed).2.symm.trans (h.isArrayOf legible arrayed).2
    rfl
  · rintro rfl
    obtain ⟨info, hi, -, hfind⟩ := h
    obtain ⟨info', hi', -, hfind'⟩ := h'
    cases hi.symm.trans hi'
    exact Option.some.inj (hfind'.symm.trans hfind)

end Session

namespace Query

open Session

variable {c : Codebase} {s t u : Session} {node identifier : NodeId} {type array : TypeId}
  {info : TypeInfo}

/-- The array type of a type that is known by its qualified name. -/
theorem orArray_eq (firm : c.Firm) (settled : s.Settled c) (hi : s.types.get? type = some info)
    (denotes : s.Denotes c info.qualifiedName type) :
    orArray c true type s = arrayOf info.qualifiedName s := by
  refine (bind_ok (typeInfo_eq hi)).trans ?_
  rw [arrayTypeFor_eq]
  exact bind_ok (denotes.run firm settled)

theorem orArray_of_hasArray (firm : c.Firm) (settled : s.Settled c)
    (h : s.HasArray c type array) : orArray c true type s = .ok (some array, s) := by
  obtain ⟨info, hi, denotes, hfind⟩ := h
  rw [orArray_eq firm settled hi denotes, arrayOf_eq _ settled.room, hfind]

/-- The array type of a type is kept from now on, unless there is no room for its symbols. -/
theorem orArray_cases (legible : c.Legible) (arrayed : s.Arrayed c)
    (nameable : Nameable c (some type) s) :
    orArray c true type s = .error .symbolsExhausted ∧ SymbolId.limit < s.nextSymbol + 27 ∨
      ∃ array t, orArray c true type s = .ok (some array, t) ∧ t.HasArray c type array := by
  obtain ⟨name, denotes⟩ := nameable type rfl
  obtain ⟨info, hi, -, backed⟩ := denotes.backed legible arrayed.toLodged
  rw [orArray_eq legible.firm arrayed.toSettled hi backed, arrayOf_eq _ arrayed.room]
  split
  · rename_i found hfind
    exact .inr ⟨found, s, rfl, info, hi, backed, hfind⟩
  split
  · have grown := extends_withArray s info.qualifiedName
    refine .inr ⟨_, _, rfl, info, grown.types hi, backed.extends grown, ?_⟩
    exact (Registry.find?_insert _ _ _ _).trans (if_pos rfl)
  · exact .inl ⟨rfl, by omega⟩

/-- The type name of an array makes the array type of what it leads to. -/
theorem typeOfTypeName_cases (legible : c.Legible) (arrayed : s.Arrayed c)
    (hform : c.tree.form node = .ok (.typeName identifier true))
    (run : referent c node s = .ok (some type, t)) :
    typeOfTypeName c node s = .error .symbolsExhausted ∧ SymbolId.limit < s.nextSymbol + 27 ∨
      ∃ array u, typeOfTypeName c node s = .ok (some array, u) ∧ t.Retains c u ∧
        u.HasArray c type array := by
  have steps := steps_arraying legible.firm
  obtain ⟨-, kept⟩ := steps.plain (.referent node) arrayed run
  obtain ⟨-, -, nameable, -⟩ := lasts_referent legible.firm arrayed.toFounded node run
  have same := (sameArrays_of_plain (.referent node) run).synthetic
  rw [typeOfTypeName_of_some hform run,
    ← show t.nextSymbol = s.nextSymbol by rw [nextSymbol, nextSymbol, same]]
  refine (orArray_cases legible kept nameable).imp_right ?_
  rintro ⟨array, u, made, has⟩
  exact ⟨array, u, made, (steps.plain (.orArray true type) kept made).1.toRetains, has⟩

/-- A type name of an array stands for an array type whose elements have the type that the name
leads to where it stands, and it does so from then on. No two types of elements have the same array
type, and no type has two. If the name leads nowhere, then no array type is made. -/
theorem arrays_mirror_elements (bound : c.Bound) (wf : c.tree.WellFormed)
    (top : c.tree.ScriptsOnTop) (distinct : c.Distinct) (direct : c.StructsDirect)
    (arises : s.Arises c) (hform : c.tree.form node = .ok (.typeName identifier true)) :
    ∃ found t, referent c node s = .ok (found, t) ∧
      (found = none → typeOfTypeName c node s = .ok (none, t) ∧ s.SameArrays t) ∧
      ∀ type, found = some type →
        typeOfTypeName c node s = .error .symbolsExhausted ∧
            SymbolId.limit < s.nextSymbol + 27 ∨
          ∃ array u, typeOfTypeName c node s = .ok (some array, u) ∧ u.IsArrayOf c array type ∧
            ∀ v, u.Leads c v → typeOfTypeName c node v = .ok (some array, v) ∧
              v.IsArrayOf c array type ∧ ∀ other identifier' type' array' w w',
                c.tree.form other = .ok (.typeName identifier' true) →
                referent c other v = .ok (some type', w) →
                typeOfTypeName c other v = .ok (some array', w') →
                (array' = array ↔ type' = type) := by
  have legible : c.Legible := ⟨bound, bound.declares wf top, distinct, direct⟩
  have firm := legible.firm
  have steps := steps_arraying firm
  have arrayed := arises.arrayed firm
  have has : c.tree.Has node := by
    obtain ⟨n, hn, -⟩ := Option.map_eq_some_iff.1 (Binding.formAt_of_form hform)
    exact Tree.has_of_node? hn
  obtain ⟨found, t, run, -⟩ :=
    exists_ok_of_settling (runs_referent firm arrayed.toSettled wf.descending has)
  refine ⟨found, t, run, ?_, ?_⟩
  · rintro rfl
    exact ⟨typeOfTypeName_of_none hform run, sameArrays_of_plain (.referent node) run⟩
  rintro type rfl
  rcases typeOfTypeName_cases legible arrayed hform run with
    exhausted | ⟨array, u, made, retains, hasArray⟩
  · exact .inl exhausted
  obtain ⟨-, kept⟩ := steps.plain (.typeOfTypeName node) arrayed made
  refine .inr ⟨array, u, made, hasArray.isArrayOf legible kept, fun v leads => ?_⟩
  -- Whatever is asked in between, the name leads to the type and the array is kept.
  obtain ⟨grows, kept⟩ := leads.steady steps kept
  have still := hasArray.retains grows
  obtain ⟨-, -, -, again⟩ := lasts_referent firm arrayed.toFounded node run
  have leadsBack := again kept.toFounded ((naming c).trans retains grows.toRetains)
  refine ⟨?_, still.isArrayOf legible kept, ?_⟩
  · rw [typeOfTypeName_of_some hform leadsBack]
    exact orArray_of_hasArray firm kept.toSettled still
  intro other identifier' type' array' w w' hform' run' made'
  rcases typeOfTypeName_cases legible kept hform' run' with ⟨fault, -⟩ | ⟨_, _, made, -, hasArray'⟩
  · cases fault.symm.trans made'
  cases made.symm.trans made'
  obtain ⟨grows', kept'⟩ := steps.plain (.typeOfTypeName other) kept made'
  exact (still.retains grows').eq_iff hasArray' legible kept'

/-- A struct of an extended script, with two names for its array:

    ScriptName N:Base
    Struct S
    EndStruct

    ScriptName N:A extends N:Base
    S[] v
    n:BASE:s[] w -/
def spellingForms : List Form :=
  [.identifier "N:Base", .scriptHeader ⟨0⟩ none ∅, .identifier "S", .struct ⟨2⟩ [],
    .script ⟨1⟩ [] [⟨3⟩],
    .identifier "N:A", .identifier "N:Base", .scriptHeader ⟨5⟩ (some ⟨6⟩) ∅,
    .identifier "S", .typeName ⟨8⟩ true, .identifier "v", .variableDefinition ⟨9⟩ ⟨10⟩ none ∅,
    .identifier "n:BASE:s", .typeName ⟨12⟩ true, .identifier "w",
    .variableDefinition ⟨13⟩ ⟨14⟩ none ∅,
    .script ⟨7⟩ [] [⟨11⟩, ⟨15⟩]]

theorem spellings_share_array :
    ∃ (c : Codebase) (s t u w w' : Session) (type array array' : TypeId),
    c.tree = .ofForms spellingForms ∧ c.Bound ∧ c.tree.WellFormed ∧ c.tree.ScriptsOnTop ∧
    c.Distinct ∧ c.StructsDirect ∧ s.Arises c ∧
    c.tree.form ⟨9⟩ = .ok (.typeName ⟨8⟩ true) ∧ c.tree.form ⟨13⟩ = .ok (.typeName ⟨12⟩ true) ∧
    referent c ⟨9⟩ s = .ok (some type, t) ∧ typeOfTypeName c ⟨9⟩ s = .ok (some array, u) ∧
    referent c ⟨13⟩ u = .ok (some type, w) ∧ typeOfTypeName c ⟨13⟩ u = .ok (some array', w') ∧
    u.IsArrayOf c array type ∧ array' = array := by
  obtain ⟨c, s, same, bound, wf, top, -, arises, fits⟩ := exists_session spellingForms
    (fun c s => decide (c.Distinct ∧ c.StructsDirect) &&
      (referent c ⟨9⟩ s).toOption.any fun (r : Option TypeId × Session) =>
        (typeOfTypeName c ⟨9⟩ s).toOption.any fun (a : Option TypeId × Session) =>
          (referent c ⟨13⟩ a.2).toOption.any fun (r' : Option TypeId × Session) =>
            (typeOfTypeName c ⟨13⟩ a.2).toOption.any fun (a' : Option TypeId × Session) =>
              r.1.isSome && decide (r'.1 = r.1) && a.1.isSome && a'.1.isSome)
    (by decide +kernel) (by decide +kernel) (by decide +kernel) (by decide +kernel)
  obtain ⟨settings, fits⟩ := Bool.and_eq_true_iff.1 fits
  obtain ⟨distinct, direct⟩ := of_decide_eq_true settings
  obtain ⟨⟨found, t⟩, run, fits⟩ := exists_ok_of_any fits
  obtain ⟨⟨answer, u⟩, made, fits⟩ := exists_ok_of_any fits
  obtain ⟨⟨found', w⟩, run', fits⟩ := exists_ok_of_any fits
  obtain ⟨⟨answer', w'⟩, made', fits⟩ := exists_ok_of_any fits
  simp only [Bool.and_eq_true, decide_eq_true_eq] at fits
  obtain ⟨⟨⟨isFound, rfl⟩, isMade⟩, isMade'⟩ := fits
  obtain ⟨type, rfl⟩ := Option.isSome_iff_exists.1 isFound
  obtain ⟨array, rfl⟩ := Option.isSome_iff_exists.1 isMade
  obtain ⟨array', rfl⟩ := Option.isSome_iff_exists.1 isMade'
  have hform : c.tree.form ⟨9⟩ = .ok (.typeName ⟨8⟩ true) := same ▸ by decide +kernel
  have hform' : c.tree.form ⟨13⟩ = .ok (.typeName ⟨12⟩ true) := same ▸ by decide +kernel
  obtain ⟨_, _, again, -, mirrors⟩ :=
    arrays_mirror_elements bound wf top distinct direct arises hform
  cases run.symm.trans again
  rcases mirrors type rfl with ⟨fault, -⟩ | ⟨_, _, made'', isArray, lasts⟩
  · cases fault.symm.trans made
  cases made.symm.trans made''
  exact ⟨c, s, t, u, w, w', type, array, array', same, bound, wf, top, distinct, direct, arises,
    hform, hform', run, made, run', made', isArray,
    ((lasts u .refl).2.2 ⟨13⟩ ⟨12⟩ type array' w w' hform' run' made').2 rfl⟩

/-- Two structs whose names are forms of one letter:

    ScriptName A
    Struct ς
    EndStruct
    Struct σ
    EndStruct
    ς[] v -/
def sigmaForms : List Form :=
  [.identifier "A", .scriptHeader ⟨0⟩ none ∅, .identifier "ς", .struct ⟨2⟩ [],
    .identifier "σ", .struct ⟨4⟩ [],
    .identifier "ς", .typeName ⟨6⟩ true, .identifier "v", .variableDefinition ⟨7⟩ ⟨8⟩ none ∅,
    .script ⟨1⟩ [] [⟨3⟩, ⟨5⟩, ⟨9⟩]]

/-- It is not enough that qualified names differ in lower case. The array for `A:Σ` has elements of
the struct `σ`, and is kept as `a:ς`. -/
theorem sigmas_share_array : ∃ (c : Codebase) (s t u v : Session) (type array other : TypeId),
    c.tree = .ofForms sigmaForms ∧ c.Bound ∧ c.tree.WellFormed ∧ c.tree.ScriptsOnTop ∧
    c.Unambiguous ∧ c.StructsDirect ∧ s.Arises c ∧
    c.tree.form ⟨7⟩ = .ok (.typeName ⟨6⟩ true) ∧ referent c ⟨7⟩ s = .ok (some type, t) ∧
    typeOfTypeName c ⟨7⟩ s = .ok (some array, u) ∧
    elementType c array u = .ok (some other, v) ∧ other ≠ type := by
  obtain ⟨c, first, same, bound, wf, top, -, arises, fits⟩ := exists_session sigmaForms
    (fun c first => decide (c.Unambiguous ∧ c.StructsDirect) &&
      ((Question.arrayTypeFor "A:Σ").ask c first).toOption.any fun (q : Unit × Session) =>
        (referent c ⟨7⟩ q.2).toOption.any fun (r : Option TypeId × Session) =>
          (typeOfTypeName c ⟨7⟩ q.2).toOption.any fun (a : Option TypeId × Session) =>
            a.1.any fun array =>
              (elementType c array a.2).toOption.any fun (e : Option TypeId × Session) =>
                r.1.isSome && e.1.isSome && decide (e.1 ≠ r.1))
    (by decide +kernel) (by decide +kernel) (by decide +kernel) (by decide +kernel)
  obtain ⟨settings, fits⟩ := Bool.and_eq_true_iff.1 fits
  obtain ⟨unambiguous, direct⟩ := of_decide_eq_true settings
  obtain ⟨⟨_, s⟩, asked, fits⟩ := exists_ok_of_any fits
  obtain ⟨⟨found, t⟩, run, fits⟩ := exists_ok_of_any fits
  obtain ⟨⟨answer, u⟩, made, fits⟩ := exists_ok_of_any fits
  obtain ⟨array, rfl, fits⟩ := (Option.any_eq_true _ _).1 fits
  obtain ⟨⟨element, v⟩, elements, fits⟩ := exists_ok_of_any fits
  simp only [Bool.and_eq_true, decide_eq_true_eq] at fits
  obtain ⟨⟨isFound, isElement⟩, unlike⟩ := fits
  obtain ⟨type, rfl⟩ := Option.isSome_iff_exists.1 isFound
  obtain ⟨other, rfl⟩ := Option.isSome_iff_exists.1 isElement
  obtain ⟨start, started, leads⟩ := arises
  exact ⟨c, s, t, u, v, type, array, other, same, bound, wf, top, unambiguous, direct,
    ⟨start, started, .ask _ leads asked⟩, same ▸ by decide +kernel, run, made, elements,
    fun equal => unlike (congrArg some equal)⟩

end Query

end PapyrusAnalysis
