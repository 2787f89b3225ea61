import PapyrusAnalysis.Proofs.Session.Resolution
import PapyrusAnalysis.Session.Members

/-!
# Members in corresponding sessions

Corresponding types have corresponding members, in the same order, and fit the same places.

## Main definitions

* `Correspondence.Entry`: symbols with their numbers that correspond.
* `Query.MemberGroup.Respects`: a group of members that is the same for types that look alike.
-/

namespace PapyrusAnalysis

namespace Symbol.Alike

variable {R Q : SymbolId → SymbolId → Prop} {x y : Symbol}

theorem imp (h : x.Alike R y) (weaken : ∀ a b, R a b → Q a b) : x.Alike Q y where
  id := weaken _ _ h.id
  kind := h.kind
  name := h.name
  qualifiedName := h.qualifiedName
  declaration := h.declaration
  importedScript := h.importedScript
  extendedScript := h.extendedScript
  valueType := h.valueType
  traits := h.traits
  members := h.members.imp weaken
  parameters := h.parameters.imp weaken
  imports := h.imports.imp weaken

end Symbol.Alike

namespace Correspondence

/-- Symbols with their numbers that correspond. -/
def Entry (R : Correspondence) (s t : Session) (x y : SymbolId × Symbol) : Prop :=
  R.symbols s t x.1 y.1 ∧ R.symbolsAlike s t x.2 y.2

/-- Symbols that correspond one by one. -/
def Listed (R : Correspondence) (xs ys : List SymbolId) (s t : Session) : Prop :=
  List.Forall₂ (R.symbols s t) xs ys

namespace Lawful

variable {c : Codebase} {R : Correspondence} {s t s' t' : Session}

theorem entry_mono (law : R.Lawful c) {x y : SymbolId × Symbol} (h : R.Entry s t x y)
    (gs : s.Follows s') (gt : t.Follows t') : R.Entry s' t' x y :=
  ⟨law.symbols_mono h.1 gs.grown gt.grown,
    h.2.imp fun _ _ hab => law.symbols_mono hab gs.grown gt.grown⟩

theorem listed_mono (law : R.Lawful c) {xs ys : List SymbolId} (h : R.Listed xs ys s t)
    (gs : s.Follows s') (gt : t.Follows t') : R.Listed xs ys s' t' :=
  h.imp fun _ _ hab => law.symbols_mono hab gs.grown gt.grown

theorem listed_of_entries {xs ys : List (SymbolId × Symbol)}
    (h : List.Forall₂ (R.Entry s t) xs ys) : R.Listed (xs.map (·.1)) (ys.map (·.1)) s t :=
  List.rel_map (fun _ _ hxy => hxy.1) h

/-- Those among corresponding symbols that satisfy a condition. -/
theorem select (law : R.Lawful c) (rel : R.related s t) {ids ids' : List SymbolId}
    (h : R.Listed ids ids' s t) {wanted : Symbol → Bool}
    (respects : ∀ {x y}, R.symbolsAlike s t x y → wanted y = wanted x) :
    List.Forall₂ (R.Entry s t) (s.select c ids wanted) (t.select c ids' wanted) := by
  refine List.rel_filterMap ?_ h
  intro a b hab
  have found := law.symbol rel hab
  dsimp only
  generalize s.symbol? c a = x at found ⊢
  generalize t.symbol? c b = y at found ⊢
  cases found with
  | none => exact .none
  | @some x y alike =>
    dsimp only
    rw [respects alike]
    split
    · exact .some ⟨hab, alike⟩
    · exact .none

/-- As `select`, with the numbers that the symbols have. -/
theorem selectNumbered (law : R.Lawful c) (rel : R.related s t) {ids ids' : List SymbolId}
    (h : R.Listed ids ids' s t) {wanted : Symbol → Bool}
    (respects : ∀ {x y}, R.symbolsAlike s t x y → wanted y = wanted x) :
    List.Forall₂ (R.Entry s t) (s.selectNumbered c ids wanted) (t.selectNumbered c ids' wanted) :=
  List.rel_map (fun _ _ hxy => ⟨hxy.2.id, hxy.2⟩) (law.select rel h respects)

theorem ownMembers (law : R.Lawful c) (rel : R.related s t) {a b : TypeId}
    (hab : R.types s t a b) {wanted : Symbol → Bool}
    (respects : ∀ {Q : SymbolId → SymbolId → Prop} {x y}, x.Alike Q y → wanted y = wanted x) :
    Coupled R.coupling s t (Query.ownMembers c a wanted) (Query.ownMembers c b wanted)
      fun xs ys s t => List.Forall₂ (R.Entry s t) xs ys := by
  unfold Query.ownMembers
  refine law.typeInfo rel hab ?_
  intro x y _ _ alike
  refine law.symbol? rel alike.symbol ?_ ?_
  · exact .pure rel .nil
  · intro symbol symbol' _ _ alike'
    exact .get (.pure rel (law.selectNumbered rel alike'.members respects))

theorem dropShadowed (seen : List String) {xs ys : List (SymbolId × Symbol)}
    (h : List.Forall₂ (R.Entry s t) xs ys) :
    List.Forall₂ (R.Entry s t) (dropShadowed seen xs) (dropShadowed seen ys) := by
  induction h generalizing seen with
  | nil => exact .nil
  | @cons x y xs ys head rest ih =>
    obtain ⟨id, symbol⟩ := x
    obtain ⟨id', symbol'⟩ := y
    have name : symbol'.name = symbol.name := head.2.name
    simp only [PapyrusAnalysis.dropShadowed, name]
    split
    · exact ih seen
    · exact .cons head (ih _)

theorem inheritedMembers (law : R.Lawful c) (rel : R.related s t) {a b : TypeId}
    (hab : R.types s t a b) (filter : Filter) {wanted : Symbol → Bool}
    (respects : ∀ {Q : SymbolId → SymbolId → Prop} {x y}, x.Alike Q y → wanted y = wanted x) :
    Coupled R.coupling s t (Query.inheritedMembers c a filter wanted)
      (Query.inheritedMembers c b filter wanted)
      fun xs ys s t => List.Forall₂ (R.Entry s t) xs ys := by
  unfold Query.inheritedMembers
  refine law.typeInfo rel hab ?_
  intro x y _ _ alike
  rw [alike.isScript]
  split
  · exact law.ownMembers rel hab respects
  · refine .bind (law.scriptHierarchy rel hab) ?_
    intro xs ys s₁ t₁ _ _ rel₁ hxy
    have parts : Coupled R.coupling s₁ t₁ (xs.mapM (Query.ownMembers c · wanted))
        (ys.mapM (Query.ownMembers c · wanted))
        fun xss yss s t => List.Forall₂ (List.Forall₂ (R.Entry s t)) xss yss := by
      refine Coupled.mapM (C := R.coupling) (R := R.types)
        (Q := fun s t => List.Forall₂ (R.Entry s t)) ?_ ?_ rel₁ hxy ?_
      · intro s t s' t' gs gt _ a b hab
        exact law.types_mono hab gs.grown gt.grown
      · intro s t s' t' gs gt _ xs ys h
        exact h.imp fun _ _ hxy => law.entry_mono hxy gs gt
      · intro a b s' t' _ _ _ rel' hab
        exact law.ownMembers rel' hab respects
    refine .bind parts ?_
    intro xss yss s₂ t₂ _ _ rel₂ h
    have flat := List.rel_flatten h
    refine .pure rel₂ ?_
    split
    · exact dropShadowed [] flat
    · exact flat

/-! ## Groups of members -/

end Lawful

end Correspondence

/-- A group of members is the same for types and symbols that look alike. -/
structure Query.MemberGroup.Respects (group : Query.MemberGroup) : Prop where
  wanted : ∀ {Q : SymbolId → SymbolId → Prop} {x y : Symbol}, x.Alike Q y →
    group.wanted y = group.wanted x
  inTypes : ∀ {T : TypeId → TypeId → Prop} {Q : SymbolId → SymbolId → Prop} {x y : TypeInfo},
    x.Alike T Q y → group.inTypes y = group.inTypes x

theorem Query.respects_groups (filter : Filter) :
    ∀ group ∈ Query.staticGroups filter ++ Query.instanceGroups filter, group.Respects := by
  intro group hgroup
  simp only [Query.staticGroups, Query.instanceGroups, List.mem_append, List.mem_cons,
    List.not_mem_nil, or_false, List.mem_ite_nil_right] at hgroup
  rcases hgroup with ((rfl | rfl) | ⟨-, rfl⟩) | ⟨-, rfl | rfl | rfl | rfl | rfl⟩
  all_goals
    refine ⟨fun h => ?_, fun h => ?_⟩
    · simp only [h.kind, Filter.admitsFunction, Filter.admitsProperty, Filter.admitsState,
        Symbol.isGlobal, Symbol.isNative, Symbol.isAuto, Symbol.isAutoReadOnly, Symbol.isConst,
        h.traits]
    · simp only [h.isScript, h.isArray, h.isStruct]

namespace Correspondence.Lawful

variable {c : Codebase} {R : Correspondence} {s t : Session} {a b : TypeId}

theorem groupMembers (law : R.Lawful c) (rel : R.related s t) (hab : R.types s t a b)
    (filter : Filter) {group : Query.MemberGroup} (respects : group.Respects) :
    Coupled R.coupling s t (Query.groupMembers c a filter group)
      (Query.groupMembers c b filter group) R.Listed := by
  unfold Query.groupMembers
  have rest : ∀ {s t xs ys}, R.related s t → List.Forall₂ (R.Entry s t) xs ys →
      Coupled R.coupling s t (pure (xs.map (·.1))) (pure (ys.map (·.1))) R.Listed :=
    fun rel h => .pure rel (listed_of_entries h)
  dsimp only
  split
  · refine .bind (law.inheritedMembers rel hab filter respects.wanted) ?_
    intro xs ys s' t' _ _ rel' h
    exact rest rel' h
  · refine .bind (law.ownMembers rel hab respects.wanted) ?_
    intro xs ys s' t' _ _ rel' h
    exact rest rel' h

/-- Corresponding types have corresponding members. -/
theorem membersOf (law : R.Lawful c) (rel : R.related s t) (hab : R.types s t a b)
    (kinds : FlagSet MemberKind) (filter : Filter) :
    Coupled R.coupling s t (Query.membersOf c a kinds filter) (Query.membersOf c b kinds filter)
      R.Listed := by
  unfold Query.membersOf
  refine law.typeInfo rel hab ?_
  intro x y _ _ alike
  have respects := Query.respects_groups filter
  generalize Query.staticGroups filter ++ Query.instanceGroups filter = groups at respects
  have same : (groups.filter fun g => kinds.has g.kind && g.inTypes y) =
      groups.filter fun g => kinds.has g.kind && g.inTypes x := by
    refine List.filter_congr fun g hg => ?_
    rw [(respects g hg).inTypes alike]
  dsimp only
  rw [same]
  generalize hgroups : (groups.filter fun g => kinds.has g.kind && g.inTypes x) = chosen
  have lawful : ∀ g ∈ chosen, g.Respects := by
    rw [← hgroups]
    exact fun g hg => respects g (List.mem_of_mem_filter hg)
  have parts : Coupled R.coupling s t (chosen.mapM (Query.groupMembers c a filter))
      (chosen.mapM (Query.groupMembers c b filter))
      fun xss yss s t => List.Forall₂ (fun xs ys => R.Listed xs ys s t) xss yss := by
    refine Coupled.mapM (C := R.coupling) (Q := fun s t xs ys => R.Listed xs ys s t)
      (R := fun s t g g' => R.types s t a b ∧ g = g') ?_ ?_ rel ?_ ?_
    · rintro s t s' t' gs gt - g g' ⟨hab, rfl⟩
      exact ⟨law.types_mono hab gs.grown gt.grown, rfl⟩
    · intro s t s' t' gs gt _ xs ys h
      exact law.listed_mono h gs gt
    · exact List.forall₂_same.2 fun g _ => ⟨hab, rfl⟩
    · rintro g g' s' t' hg - - rel' ⟨hab', rfl⟩
      exact law.groupMembers rel' hab' filter (lawful g hg)
  refine .bind parts ?_
  intro xss yss s' t' _ _ rel' h
  exact .pure rel' (List.rel_flatten h)

/-! ## Assignability -/

theorem extendsNamed (law : R.Lawful c) (rel : R.related s t) (hab : R.types s t a b)
    (name : String) :
    Coupled R.coupling s t (Query.extendsNamed c a name) (Query.extendsNamed c b name)
      fun x y _ _ => x = y := by
  unfold Query.extendsNamed
  refine .bind (law.scriptHierarchy rel hab) ?_
  intro xs ys s₁ t₁ _ _ rel₁ hxy
  refine .bind (law.typeNames rel₁ hxy) ?_
  rintro names _ s₂ t₂ - - rel₂ rfl
  exact .pure rel₂ rfl

/-- Comparing a type with an intrinsic one. -/
theorem eq_intrinsic (law : R.Lawful c) (rel : R.related s t) (hab : R.types s t a b)
    (kind : Intrinsic) : a = kind.typeId ↔ b = kind.typeId :=
  law.inj rel hab (law.intrinsic rel kind)

theorem acceptsAll (law : R.Lawful c) (rel : R.related s t) (hab : R.types s t a b) :
    Query.acceptsAll b = Query.acceptsAll a := by
  simp only [Query.acceptsAll, List.any_cons, List.any_nil, Bool.or_false,
    eq_comm (b := a), eq_comm (b := b), law.eq_intrinsic rel hab]

theorem isPrimitive (law : R.Lawful c) (rel : R.related s t) (hab : R.types s t a b) :
    Query.isPrimitive b = Query.isPrimitive a := by
  simp only [Query.isPrimitive, List.any_cons, List.any_nil, Bool.or_false,
    eq_comm (b := a), eq_comm (b := b), law.eq_intrinsic rel hab]

/-- The last resort of assignability: the value is of a script that extends that of the place. -/
theorem isAssignable_scripts (law : R.Lawful c) (rel : R.related s t) (hab : R.types s t a b)
    (plain script : Bool) (name : String) :
    Coupled R.coupling s t
      (if plain then pure true
        else if script then do
          if (← Query.typeInfo a).isScript then Query.extendsNamed c a name else pure false
        else pure false)
      (if plain then pure true
        else if script then do
          if (← Query.typeInfo b).isScript then Query.extendsNamed c b name else pure false
        else pure false)
      fun x y _ _ => x = y := by
  split
  · exact .pure rel rfl
  split
  · refine law.typeInfo rel hab ?_
    intro x y _ _ alike
    rw [alike.isScript]
    split
    · exact law.extendsNamed rel hab name
    · exact .pure rel rfl
  · exact .pure rel rfl

/-- Corresponding values fit corresponding places. -/
theorem isAssignable (law : R.Lawful c) (rel : R.related s t) (hab : R.types s t a b)
    {a' b' : TypeId} (hab' : R.types s t a' b') :
    Coupled R.coupling s t (Query.isAssignable c a a') (Query.isAssignable c b b')
      fun x y _ _ => x = y := by
  unfold Query.isAssignable
  refine law.typeInfo rel hab ?_
  intro x y _ _ alike
  have same : decide (b = b') = decide (a = a') := by simp [law.inj rel hab hab']
  have any : decide (b' = Intrinsic.any.typeId) = decide (a' = Intrinsic.any.typeId) := by
    simp [law.eq_intrinsic rel hab' .any]
  rw [alike.isArray, alike.isScript, alike.qualifiedName, law.acceptsAll rel hab,
    law.isPrimitive rel hab, law.isPrimitive rel hab', same, any]
  dsimp only
  split
  · refine law.typeInfo rel hab' ?_
    intro x' y' _ _ alike'
    rw [alike'.isArray]
    split
    · exact .pure rel rfl
    · exact law.isAssignable_scripts rel hab' _ _ _
  · exact law.isAssignable_scripts rel hab' _ _ _

end Correspondence.Lawful

end PapyrusAnalysis
