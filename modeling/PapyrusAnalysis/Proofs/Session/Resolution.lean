import PapyrusAnalysis.Proofs.Session.Correspondence
import PapyrusAnalysis.Proofs.Text.Case

/-!
# Resolving types in corresponding sessions

A name leads to corresponding types, whichever types were made before. What it leads to can be found
again by its qualified name, so that arrays are made of types with one spelling only.
-/

namespace PapyrusAnalysis

namespace Session

variable {c : Codebase} {s s' : Session} {seen : List TypeId} {type : TypeId}

/-- Whether a type is that of a script. -/
def IsScript (s : Session) (type : TypeId) : Prop :=
  ∃ info, s.types.get? type = some info ∧ info.isScript

theorem IsScript.extends (h : s.IsScript type) (e : s.Extends s') : s'.IsScript type := by
  obtain ⟨info, hi, script⟩ := h
  exact ⟨info, e.types hi, script⟩

/-- All but at most one of some types are those of different scripts. -/
def Chain (s : Session) (seen : List TypeId) : Prop :=
  ∃ scripts : List TypeId, scripts.Nodup ∧ seen.length ≤ scripts.length + 1 ∧
    ∀ type ∈ scripts, type ∈ seen ∧ s.IsScript type

theorem Chain.nil (s : Session) : s.Chain [] := ⟨[], .nil, by simp, by simp⟩

theorem Chain.extends (h : s.Chain seen) (e : s.Extends s') : s'.Chain seen := by
  obtain ⟨scripts, nodup, length, inside⟩ := h
  exact ⟨scripts, nodup, length, fun x hx => ⟨(inside x hx).1, (inside x hx).2.extends e⟩⟩

/-- A chain goes on with a script, or starts with anything. -/
theorem Chain.cons (h : s.Chain seen) (fresh : type ∉ seen) (next : s.IsScript type ∨ seen = []) :
    s.Chain (type :: seen) := by
  rcases next with script | rfl
  · obtain ⟨scripts, nodup, length, inside⟩ := h
    refine ⟨type :: scripts, ?_, by simpa using length, ?_⟩
    · exact List.nodup_cons.2 ⟨fun hx => fresh (inside type hx).1, nodup⟩
    · intro x hx
      rcases List.mem_cons.1 hx with rfl | hx
      · exact ⟨by simp, script⟩
      · exact ⟨List.mem_cons_of_mem _ (inside x hx).1, (inside x hx).2⟩
  · exact ⟨[], .nil, by simp, by simp⟩

theorem Chain.length_le (h : s.Chain seen) (sound : s.Sound c) :
    seen.length ≤ c.symbols.size + 1 := by
  obtain ⟨scripts, nodup, length, inside⟩ := h
  have := sound.length_scripts_le nodup fun x hx => (inside x hx).2
  omega

end Session

namespace Correspondence.Lawful

open Session

variable {c : Codebase} {R : Correspondence} {s t : Session}

/-- The structs of a script can be found by their qualified names. -/
theorem resolved_struct (law : R.Lawful c) (rel : R.related s t) {a : TypeId} {info : TypeInfo}
    {table : Registry String TypeId} {key : String} {found : Option TypeId}
    (hinfo : s.types.get? a = some info) (hform : info.form = .script table)
    (h : Option.Rel (R.types s t) (table.find? key) found) :
    R.Resolved (table.find? key) found s t := by
  generalize hx : table.find? key = x at h
  cases h with
  | none => exact .none
  | @some x y hxy =>
    obtain ⟨other, ho, struct⟩ := ((law.sound rel).infos hinfo).structs hform hx
    obtain ⟨symbol, hs, hkind, -, hq⟩ := ((law.sound rel).infos ho).struct struct
    have fits := law.codebase.symbols.fits hs
    -- A struct lies in something, so there is a colon in its qualified name.
    cases hp : symbol.parent with
    | none =>
      have script := fits.top.2 hp
      rw [hkind] at script
      cases script
    | some parent =>
      obtain ⟨above, -, qualified⟩ := fits.qualified parent hp
      refine .some ⟨hxy, other, ho, .inr ⟨by simp [TypeInfo.isDeclared, struct], ?_⟩⟩
      rw [hq, qualified]
      exact TypeTable.intrinsic?_qualified _ _

theorem resolveFullName (law : R.Lawful c) (rel : R.related s t) (name : String) :
    Coupled R.coupling s t (Query.resolveFullName c name) (Query.resolveFullName c name)
      R.Resolved := by
  unfold Query.resolveFullName
  cases hi : TypeTable.intrinsic? name with
  | some type =>
    obtain ⟨kind, -, rfl⟩ := Option.map_eq_some_iff.1 hi
    obtain ⟨info, hinfo, hform, -⟩ := (law.sound rel).intrinsic kind
    exact .pure rel (.some ⟨law.intrinsic rel kind, info, hinfo, .inl (by
      simp [TypeInfo.isIntrinsic, hform])⟩)
  | none =>
    dsimp only
    cases hs : c.scripts.find? name with
    | some script =>
      obtain ⟨symbol, hsymbol, hkind, hname⟩ := law.codebase.scripts hs
      have own := law.own rel (SymbolTable.owns_of_get? hsymbol)
      refine (law.scriptType rel own).imp ?_
      rintro a b s' t' - - - ⟨found, scripted⟩
      cases found with
      | none => exact .none
      | @some a b h =>
        obtain ⟨info, hinfo, declared, key⟩ := scripted symbol a hsymbol rfl
        refine .some ⟨h, info, hinfo, .inr ⟨declared, ?_⟩⟩
        have fits := law.codebase.symbols.fits hsymbol
        have bare := fits.bare (fits.top.1 hkind)
        rw [TypeTable.intrinsic?, key, qualifiedKey, bare, hname]
        exact hi
    | none =>
      dsimp only
      split
      · exact .pure rel .none
      · cases hc : c.scripts.find? (QualifiedName.parse name).container with
        | none => exact .pure rel .none
        | some script =>
          obtain ⟨symbol, hsymbol, -⟩ := law.codebase.scripts hc
          have own := law.own rel (SymbolTable.owns_of_get? hsymbol)
          refine .bind (law.scriptType rel own) ?_
          rintro a b s' t' - - rel' ⟨found, -⟩
          cases found with
          | none => exact .pure rel' .none
          | some hxy =>
            refine law.typeInfo rel' hxy ?_
            intro info info' hinfo hinfo' alike
            have form := alike.form
            generalize hf : info.form = f at form ⊢
            generalize info'.form = f' at form ⊢
            cases form with
            | script h => exact .pure rel' (law.resolved_struct rel' hinfo hf (h _))
            | _ => exact .pure rel' .none

/-- The type with a name that is looked for in some namespaces. -/
theorem resolveType (law : R.Lawful c) (rel : R.related s t) (name : String)
    (containers : List String) :
    Coupled R.coupling s t (Query.resolveType c name containers)
      (Query.resolveType c name containers) R.Resolved := by
  induction containers generalizing s t with
  | nil => exact law.resolveFullName rel name
  | cons container rest ih =>
    unfold Query.resolveType
    refine .bind (law.resolveFullName rel _) ?_
    intro a b s' t' _ _ rel' found
    cases found with
    | none => exact ih rel'
    | some hxy => exact .pure rel' (.some hxy)

theorem arrayTypeFor (law : R.Lawful c) (rel : R.related s t) {a b : TypeId} {x y : TypeInfo}
    (hab : R.types s t a b) (element : s.IsElement a) (hx : s.types.get? a = some x)
    (hy : t.types.get? b = some y) (alike : R.typesAlike s t x y) :
    Coupled R.coupling s t (Query.arrayTypeFor c x.qualifiedName)
      (Query.arrayTypeFor c y.qualifiedName) R.Found := by
  rw [Query.arrayTypeFor_eq, Query.arrayTypeFor_eq]
  have first : Coupled R.coupling s t (Query.resolveType c x.qualifiedName [])
      (Query.resolveType c y.qualifiedName []) R.Resolved :=
    alike.qualifiedName ▸ law.resolveType rel x.qualifiedName []
  refine .bind first ?_
  intro _ _ s' t' gs gt rel' found
  cases found with
  | none => exact .pure rel' .none
  | some _ =>
    exact law.arrayOf rel' (law.types_mono hab gs.grown gt.grown) (element.extends gs.grown)
      (gs.grown.types hx) (gt.grown.types hy)

theorem elementType (law : R.Lawful c) (rel : R.related s t) {a b : TypeId}
    (hab : R.types s t a b) :
    Coupled R.coupling s t (Query.elementType c a) (Query.elementType c b) R.Found := by
  unfold Query.elementType
  refine law.typeInfo rel hab ?_
  intro x y hx hy alike
  have form := alike.form
  generalize x.form = f at form ⊢
  generalize y.form = f' at form ⊢
  cases form with
  | array element => exact (law.resolveType rel element []).imp fun _ _ _ _ _ _ _ h => h.found
  | _ => exact .pure rel .none

theorem orArray (law : R.Lawful c) (rel : R.related s t) (isArray : Bool) {a b : TypeId}
    (hab : R.types s t a b) (element : s.IsElement a) :
    Coupled R.coupling s t (Query.orArray c isArray a) (Query.orArray c isArray b) R.Found := by
  unfold Query.orArray
  cases isArray with
  | false => exact .pure rel (.some hab)
  | true =>
    refine law.typeInfo rel hab ?_
    intro x y hx hy alike
    exact law.arrayTypeFor rel hab element hx hy alike

theorem typeOfReference (law : R.Lawful c) (rel : R.related s t) (reference : TypeReference) :
    Coupled R.coupling s t (Query.typeOfReference c reference)
      (Query.typeOfReference c reference) R.Found := by
  unfold Query.typeOfReference
  refine .bind (law.resolveType rel _ _) ?_
  intro a b s' t' _ _ rel' found
  cases found with
  | none => exact .pure rel' .none
  | some hxy => exact law.orArray rel' _ hxy.1 hxy.2

/-! ## Scripts and the scripts that they extend -/

/-- Types that correspond one by one. -/
theorem mem_iff (law : R.Lawful c) (rel : R.related s t) {xs ys : List TypeId} {a b : TypeId}
    (h : List.Forall₂ (R.types s t) xs ys) (hab : R.types s t a b) : a ∈ xs ↔ b ∈ ys := by
  induction h with
  | nil => simp
  | cons head _ ih => rw [List.mem_cons, List.mem_cons, ih, law.inj rel hab head]

theorem forall₂_mono (law : R.Lawful c) {s' t' : Session} {xs ys : List TypeId}
    (h : List.Forall₂ (R.types s t) xs ys) (gs : s.Follows s') (gt : t.Follows t') :
    List.Forall₂ (R.types s' t') xs ys :=
  h.imp fun _ _ hab => law.types_mono hab gs.grown gt.grown

/-- A search through the scripts that a script extends comes to an end, since each belongs to
another symbol of the codebase. -/
theorem hierarchyFrom (law : R.Lawful c) (rel : R.related s t) {fuel : Nat}
    {seen seen' : List TypeId} {a b : TypeId} (hseen : List.Forall₂ (R.types s t) seen seen')
    (hab : R.types s t a b) (chain : s.Chain seen) (next : s.IsScript a ∨ seen = [])
    (enough : c.symbols.size + 2 ≤ fuel + seen.length) :
    Coupled R.coupling s t (Query.hierarchyFrom c fuel seen a) (Query.hierarchyFrom c fuel seen' b)
      fun xs ys s t => List.Forall₂ (R.types s t) xs ys := by
  induction fuel generalizing s t seen seen' a b with
  | zero =>
    have := chain.length_le (law.sound rel)
    omega
  | succ fuel ih =>
    unfold Query.hierarchyFrom
    have single : ∀ {s' t'}, s.Follows s' → t.Follows t' →
        List.Forall₂ (R.types s' t') [a] [b] := fun gs gt =>
      .cons (law.types_mono hab gs.grown gt.grown) .nil
    have same : seen'.contains b = seen.contains a := by
      rw [Bool.eq_iff_iff, List.contains_iff_mem, List.contains_iff_mem, law.mem_iff rel hseen hab]
    rw [same]
    by_cases old : seen.contains a = true
    · rw [if_pos old, if_pos old]
      exact .pure rel .nil
    rw [if_neg old, if_neg old]
    have fresh : a ∉ seen := fun hm => old (by simpa using hm)
    refine law.typeInfo rel hab ?_
    intro x y hx hy alike
    refine law.symbol? rel alike.symbol ?_ ?_
    · exact .pure rel (single (.refl s) (.refl t))
    intro symbol symbol' hs hs' alike'
    simp only [Option.bind_some, alike'.extendedScript]
    cases symbol.extendedScript with
    | none => exact .pure rel (single (.refl s) (.refl t))
    | some name =>
      refine .bind (law.resolveType rel name []) ?_
      intro found found' s' t' gs gt rel' resolved
      cases resolved with
      | none => exact .pure rel' (single gs gt)
      | @some next next' h =>
        refine law.typeInfo rel' h.1 ?_
        intro info info' hi hi' alike''
        rw [alike''.isScript]
        by_cases script : info.isScript = true
        · rw [if_pos script, if_pos script]
          have seen₂ : List.Forall₂ (R.types s' t') (a :: seen) (b :: seen') :=
            law.forall₂_mono (.cons hab hseen) gs gt
          refine .bind (ih rel' seen₂ h.1 ((chain.cons fresh ‹_›).extends gs.grown)
            (.inl ⟨info, hi, script⟩) (by simp only [List.length_cons]; omega)) ?_
          intro xs ys s'' t'' gs' gt' rel'' hxy
          exact .pure rel'' (.cons (law.types_mono hab (gs.trans gs').grown (gt.trans gt').grown)
            hxy)
        · rw [if_neg script, if_neg script]
          exact .pure rel' (single gs gt)

theorem scriptHierarchy (law : R.Lawful c) (rel : R.related s t) {a b : TypeId}
    (hab : R.types s t a b) :
    Coupled R.coupling s t (Query.scriptHierarchy c a) (Query.scriptHierarchy c b)
      fun xs ys s t => List.Forall₂ (R.types s t) xs ys :=
  law.hierarchyFrom rel .nil hab (.nil s) (.inr rfl) (by simp)

/-! ## Types in a tree -/

/-- Scripts that look alike import scripts of the same names. -/
theorem importNames_eq (law : R.Lawful c) (rel : R.related s t) {x y : Symbol}
    (alike : R.symbolsAlike s t x y) :
    ∃ names, Query.importNames c x s = .ok (names, s) ∧
      Query.importNames c y t = .ok (names, t) := by
  have same : List.Forall₂ Eq
      (x.imports.filterMap fun id => (s.symbol? c id).bind (·.importedScript))
      (y.imports.filterMap fun id => (t.symbol? c id).bind (·.importedScript)) := by
    refine List.rel_filterMap ?_ alike.imports
    intro a b hab
    have found := law.symbol rel hab
    dsimp only
    generalize s.symbol? c a = x at found ⊢
    generalize t.symbol? c b = y at found ⊢
    cases found with
    | none => exact .none
    | @some x y h =>
      rw [Option.bind_some, Option.bind_some, h.importedScript]
      cases x.importedScript with
      | none => exact .none
      | some name => exact .some rfl
  rw [List.forall₂_eq_eq_eq] at same
  exact ⟨_, rfl, congrArg (fun names => Except.ok (names, t)) same.symm⟩

/-- Corresponding types have the same names. -/
theorem typeNames (law : R.Lawful c) (rel : R.related s t) {xs ys : List TypeId}
    (h : List.Forall₂ (R.types s t) xs ys) :
    Coupled R.coupling s t
      (xs.mapM fun type => do return (← Query.typeInfo type).qualifiedName)
      (ys.mapM fun type => do return (← Query.typeInfo type).qualifiedName)
      fun names names' _ _ => names = names' := by
  have eq : ∀ {names names' : List String}, List.Forall₂ (fun a b => a = b) names names' →
      names = names' := fun h => by rwa [List.forall₂_eq_eq_eq] at h
  refine (Coupled.mapM (Q := fun _ _ => Eq) ?_ (fun _ _ _ _ _ h => h) rel h ?_).imp
    fun _ _ _ _ _ _ _ h => eq h
  · intro s t s' t' gs gt _ a b hab
    exact law.types_mono hab gs.grown gt.grown
  · intro a b s' t' _ _ _ rel' hab
    refine law.typeInfo rel' hab ?_
    intro x y _ _ alike
    exact .pure rel' alike.qualifiedName.symm

end Correspondence.Lawful

namespace Query

/-- The script around a node does not depend on the session. -/
theorem scriptAround_eq {c : Codebase} (hc : Binding.Sound c.tree c.symbols) {node : NodeId}
    (has : c.tree.Has node) :
    ∃ script, (∀ s, scriptAround c node s = .ok (script, s)) ∧
      ∀ id, script = some id →
        ∃ symbol, c.symbols.get? id = some symbol ∧ symbol.kind = .script := by
  obtain ⟨n, hn⟩ := has.node?
  refine ⟨_, fun s => bind_ok (liftM_ok (Tree.scriptOf_eq_ok hn) s), ?_⟩
  intro id hid
  obtain ⟨root, hroot, hid⟩ := Option.bind_eq_some_iff.1 hid
  have found := List.find?_some hroot
  cases hm : c.tree.node? root with
  | none => simp [hm] at found
  | some m => exact hc.symbolOf_script hm (by simpa [hm] using found) hid

/-- The type with a name as it is meant in a script, when no script that it extends has it. -/
def resolveIn (c : Codebase) (symbol : Option Symbol) (name : String) : Query (Option TypeId) := do
  let imports ← match symbol with
    | some symbol => importNames c symbol
    | none => pure []
  if let some type ← resolveType c name imports then return type
  let some symbol := symbol | return none
  let current := QualifiedName.parse (Text.lowercase symbol.name)
  if refersInto current (Text.lowercase name) then resolveType c name [current.container]
  else return none

theorem resolveAt_eq (c : Codebase) (node : NodeId) (name : String) :
    resolveAt c node name = (do
      match ← scriptAround c node with
      | some script =>
        if let some type ← scriptType c script then
          let hierarchy ← scriptHierarchy c type
          let namespaces ← hierarchy.mapM fun t => return (← typeInfo t).qualifiedName
          if let some type ← resolveType c name namespaces then return type
        resolveIn c (← symbol? c script) name
      | none => resolveIn c none name) := by
  unfold resolveAt
  congr 1
  funext script
  cases script <;> rfl

end Query

namespace Correspondence.Lawful

variable {c : Codebase} {R : Correspondence} {s t : Session}

theorem resolveIn (law : R.Lawful c) (rel : R.related s t) {x y : Option Symbol}
    (alike : Option.Rel (R.symbolsAlike s t) x y) (name : String) :
    Coupled R.coupling s t (Query.resolveIn c x name) (Query.resolveIn c y name) R.Resolved := by
  unfold Query.resolveIn
  cases alike with
  | none =>
    refine .known (a := []) (b := []) rfl rfl (.bind (law.resolveType rel name []) ?_)
    intro a b s' t' _ _ rel' found
    cases found with
    | none => exact .pure rel' .none
    | some h => exact .pure rel' (.some h)
  | @some x y alike =>
    obtain ⟨imports, left, right⟩ := law.importNames_eq rel alike
    refine .known left right (.bind (law.resolveType rel name imports) ?_)
    intro a b s' t' _ _ rel' found
    cases found with
    | some h => exact .pure rel' (.some h)
    | none =>
      dsimp only
      rw [alike.name]
      split
      · exact law.resolveType rel' name _
      · exact .pure rel' .none

theorem resolveAt (law : R.Lawful c) (rel : R.related s t) {node : NodeId}
    (has : c.tree.Has node) (name : String) :
    Coupled R.coupling s t (Query.resolveAt c node name) (Query.resolveAt c node name)
      R.Resolved := by
  obtain ⟨script, around, isScript⟩ := Query.scriptAround_eq law.codebase.symbols has
  rw [Query.resolveAt_eq]
  refine .known (around s) (around t) ?_
  cases script with
  | none => exact law.resolveIn rel .none name
  | some script =>
    obtain ⟨symbol, hs, -⟩ := isScript script rfl
    have own : ∀ {s t}, R.related s t → R.symbols s t script script := fun rel =>
      law.own rel (SymbolTable.owns_of_get? hs)
    have rest : ∀ {s t}, R.related s t →
        Coupled R.coupling s t (Query.symbol? c script >>= (Query.resolveIn c · name))
          (Query.symbol? c script >>= (Query.resolveIn c · name)) R.Resolved := by
      intro s t rel
      refine law.symbol? rel (own rel) ?_ ?_
      · exact law.resolveIn rel .none name
      · intro x y _ _ alike
        exact law.resolveIn rel (.some alike) name
    refine .bind (law.scriptType rel (own rel)) ?_
    rintro a b s₁ t₁ - - rel₁ ⟨found, -⟩
    cases found with
    | none => exact rest rel₁
    | some hab =>
      refine .bind (law.scriptHierarchy rel₁ hab) ?_
      intro xs ys s₂ t₂ _ _ rel₂ hxy
      refine .bind (law.typeNames rel₂ hxy) ?_
      rintro names _ s₃ t₃ - - rel₃ rfl
      refine .bind (law.resolveType rel₃ name names) ?_
      intro a b s₄ t₄ _ _ rel₄ found
      cases found with
      | none => exact rest rel₄
      | some h => exact .pure rel₄ (.some h)

theorem typeOfTypeName (law : R.Lawful c) (rel : R.related s t) {node : NodeId}
    (has : c.tree.Has node) :
    Coupled R.coupling s t (Query.typeOfTypeName c node) (Query.typeOfTypeName c node)
      R.Found := by
  obtain ⟨n, hn⟩ := has.node?
  obtain ⟨name, hname⟩ := Tree.nameOf_eq_ok law.codebase.descending has
  unfold Query.typeOfTypeName
  refine .lift (Tree.form_eq_ok hn) ?_
  split
  · refine .lift hname ?_
    cases name with
    | none => exact .pure rel .none
    | some name =>
      refine .bind (law.resolveAt rel has name) ?_
      intro a b s' t' _ _ rel' found
      cases found with
      | none => exact .pure rel' .none
      | some h => exact law.orArray rel' _ h.1 h.2
  · exact .pure rel .none

/-! ## Types of symbols -/

/-- The types of symbols that are no structs. -/
theorem typeOfSymbol (law : R.Lawful c) (rel : R.related s t) {a b : SymbolId}
    (hab : R.symbols s t a b)
    (kind : ∀ symbol, s.symbol? c a = some symbol → symbol.kind ≠ .struct) :
    Coupled R.coupling s t (Query.typeOfSymbol c a) (Query.typeOfSymbol c b) R.Found := by
  unfold Query.typeOfSymbol
  refine law.symbol? rel hab ?_ ?_
  · exact .pure rel .none
  intro x y hx _ alike
  dsimp only
  rw [alike.kind, alike.name]
  split
  · exact (law.scriptType rel hab).imp fun _ _ _ _ _ _ _ h => h.1
  · rename_i struct
    exact absurd struct (kind x hx)
  · cases hi : TypeTable.intrinsic? x.name with
    | none => exact .pure rel .none
    | some type =>
      obtain ⟨kind, -, rfl⟩ := Option.map_eq_some_iff.1 hi
      exact .pure rel (.some (law.intrinsic rel kind))
  · exact .pure rel .none

end Correspondence.Lawful

end PapyrusAnalysis
