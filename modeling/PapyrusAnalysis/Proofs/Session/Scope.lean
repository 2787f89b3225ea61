import PapyrusAnalysis.Proofs.Session.Members
import PapyrusAnalysis.Session.Scope

/-!
# Scopes in corresponding sessions

What surrounds a node is a matter of the tree, so corresponding sessions offer corresponding symbols
at each node.
-/

namespace PapyrusAnalysis

namespace Tree

variable {t : Tree} {node : NodeId}

/-- The base of a member access is a part of it. -/
theorem baseAmong_eq_some {lineage around : List NodeId} {base : NodeId}
    (h : t.baseAmong lineage around = some base) :
    ∃ id ∈ around, ∃ n access, t.node? id = some n ∧ n.form = .memberAccess base access := by
  induction around with
  | nil => cases h
  | cons id rest ih =>
    rw [baseAmong] at h
    split at h
    · cases h
    · rename_i base' access hform
      split at h
      · obtain ⟨other, ho, found⟩ := ih h
        exact ⟨other, by simp [ho], found⟩
      · cases h
        obtain ⟨n, hn, hf⟩ := Option.map_eq_some_iff.1 hform
        exact ⟨id, by simp, n, access, hn, hf⟩
    · obtain ⟨other, ho, found⟩ := ih h
      exact ⟨other, by simp [ho], found⟩

theorem baseFor_eq_ok (descending : t.Descending) (has : t.Has node) :
    ∃ base, t.baseFor node = .ok base ∧ ∀ id, base = some id → t.Has id := by
  obtain ⟨n, hn⟩ := has.node?
  refine ⟨_, by rw [baseFor, lineage_eq_ok hn]; rfl, ?_⟩
  intro id hid
  obtain ⟨other, -, m, access, hm, hf⟩ := baseAmong_eq_some hid
  exact descending.has hm (by simp [hf, Form.children])

theorem memberKindsAt_eq_ok (has : t.Has node) : ∃ kinds, t.memberKindsAt node = .ok kinds := by
  obtain ⟨n, hn⟩ := has.node?
  exact ⟨_, by rw [memberKindsAt, lineage_eq_ok hn]; rfl⟩

theorem containersAround_eq_ok (has : t.Has node) :
    ∃ containers, t.containersAround node = .ok containers := by
  obtain ⟨n, hn⟩ := has.node?
  exact ⟨_, by rw [containersAround, lineage_eq_ok hn]; rfl⟩

/-- No script or struct is a member of anything. -/
theorem Shielded.baseFor (shielded : t.Shielded) {n : Node} (hn : t.node? node = some n)
    (h : n.form.isScript ∨ n.form.isStruct) : t.baseFor node = .ok none := by
  have around := ancestors_eq_ok hn
  rw [Tree.baseFor, lineage_eq_ok hn]
  refine congrArg Except.ok ?_
  cases hb : t.baseAmong (node :: t.climb t.size n.parent) (node :: t.climb t.size n.parent) with
  | none => rfl
  | some base =>
    obtain ⟨id, hid, m, access, hm, hf⟩ := baseAmong_eq_some hb
    rcases List.mem_cons.1 hid with rfl | hid
    · rw [hn] at hm
      cases hm
      simp [hf, Form.isScript, Form.isStruct] at h
    · exact absurd (by simp [hf, Form.isMemberAccess])
        (shielded node n hn h _ around id hid m hm)

end Tree

/-- Some members of a script, and what its imports offer. -/
def Query.withImports (c : Codebase) (script : SymbolId) (kinds : FlagSet MemberKind)
    (members : List SymbolId) : Query (List SymbolId) := do
  let imports ← match ← symbol? c script with
    | some symbol => importNames c symbol
    | none => pure []
  return members ++ (← importedMembers c kinds imports)

namespace Correspondence.Lawful

open Session

variable {c : Codebase} {R : Correspondence} {s t : Session}

theorem importedMembers (law : R.Lawful c) (rel : R.related s t) (kinds : FlagSet MemberKind)
    (names : List String) :
    Coupled R.coupling s t (Query.importedMembers c kinds names)
      (Query.importedMembers c kinds names) R.Listed := by
  induction names generalizing s t with
  | nil => exact .pure rel .nil
  | cons name rest ih =>
    unfold Query.importedMembers
    refine .bind (law.resolveType rel name []) ?_
    intro a b s₁ t₁ _ _ rel₁ found
    have next : ∀ {s t xs ys}, R.related s t → R.Listed xs ys s t →
        Coupled R.coupling s t
          (Query.importedMembers c kinds rest >>= fun more => pure (xs ++ more))
          (Query.importedMembers c kinds rest >>= fun more => pure (ys ++ more)) R.Listed := by
      intro s t xs ys rel h
      refine .bind (ih rel) ?_
      intro more more' s' t' gs gt rel' h'
      exact .pure rel' (List.rel_append (law.listed_mono h gs gt) h')
    cases found with
    | none => exact next rel₁ .nil
    | some hab =>
      refine .bind (law.membersOf rel₁ hab.1 _ _) ?_
      intro xs ys s₂ t₂ _ _ rel₂ h
      exact next rel₂ h

theorem withImports (law : R.Lawful c) (rel : R.related s t) {script : SymbolId} {symbol : Symbol}
    (hs : c.symbols.get? script = some symbol) (kinds : FlagSet MemberKind) {xs ys : List SymbolId}
    (h : R.Listed xs ys s t) :
    Coupled R.coupling s t (Query.withImports c script kinds xs)
      (Query.withImports c script kinds ys) R.Listed := by
  obtain ⟨names, left, right⟩ := law.importNames_eq rel (law.own_alike rel hs)
  unfold Query.withImports
  refine ownSymbol hs (.known left right (.bind (law.importedMembers rel kinds names) ?_))
  intro more more' s' t' gs gt rel' h'
  exact .pure rel' (List.rel_append (law.listed_mono h gs gt) h')

theorem scriptSymbols (law : R.Lawful c) (rel : R.related s t) {script : SymbolId}
    {symbol : Symbol} (hs : c.symbols.get? script = some symbol) (hkind : symbol.kind = .script)
    (kinds : FlagSet MemberKind) (filter : Filter) :
    Coupled R.coupling s t (Query.scriptSymbols c script kinds filter)
      (Query.scriptSymbols c script kinds filter) R.Listed := by
  have owned := SymbolTable.owns_of_get? hs
  have known (s : Session) : s.symbol? c script = some symbol := (symbol?_own s owned).trans hs
  unfold Query.scriptSymbols
  refine .bind (law.typeOfSymbol rel (law.own rel owned) ?_) ?_
  · intro other ho
    rw [known s] at ho
    cases ho
    simp [hkind]
  intro a b s₁ t₁ _ _ rel₁ found
  cases found with
  | none => exact law.withImports rel₁ hs kinds .nil
  | some hab =>
    refine .bind (law.membersOf rel₁ hab kinds filter) ?_
    intro xs ys s₂ t₂ _ _ rel₂ h
    exact law.withImports rel₂ hs kinds h

theorem scriptPart (law : R.Lawful c) (rel : R.related s t) (container : NodeId)
    (kinds : FlagSet MemberKind) (filter : Filter) :
    Coupled R.coupling s t (Query.scriptPart c container kinds filter)
      (Query.scriptPart c container kinds filter) R.Listed := by
  unfold Query.scriptPart
  split
  · exact .pure rel .nil
  · rename_i script
    cases hs : c.symbols.symbolOf container with
    | none => exact .pure rel .nil
    | some id =>
      cases hn : c.tree.node? container with
      | none => simp [hn] at script
      | some n =>
        have isScript : n.form.isScript = true := by simpa [hn] using script
        obtain ⟨symbol, hsymbol, hkind⟩ := law.codebase.symbols.symbolOf_script hn isScript hs
        exact law.scriptSymbols rel hsymbol hkind kinds filter

/-- Symbols that correspond have the same names in the same order. -/
theorem names_eq (law : R.Lawful c) (rel : R.related s t) {xs ys : List SymbolId}
    (h : R.Listed xs ys s t) (name : Symbol → String)
    (respects : ∀ {x y}, R.symbolsAlike s t x y → name y = name x) :
    xs.filterMap (fun id => (s.symbol? c id).map name) =
      ys.filterMap (fun id => (t.symbol? c id).map name) := by
  rw [← List.forall₂_eq_eq_eq]
  refine List.rel_filterMap ?_ h
  intro a b hab
  have found := law.symbol rel hab
  dsimp only
  generalize s.symbol? c a = x at found ⊢
  generalize t.symbol? c b = y at found ⊢
  cases found with
  | none => exact .none
  | some alike => exact .some (respects alike).symm

theorem containerSymbols (law : R.Lawful c) (rel : R.related s t) (container : NodeId)
    (kinds : FlagSet MemberKind) (filter : Filter) :
    Coupled R.coupling s t (Query.containerSymbols c kinds filter container)
      (Query.containerSymbols c kinds filter container) R.Listed := by
  unfold Query.containerSymbols
  refine .bind (law.scriptPart rel container kinds filter) ?_
  intro xs ys s' t' _ _ rel' h
  split
  · exact .pure rel' h
  · have taken := law.names_eq rel' h qualifiedKey fun alike => by
      rw [qualifiedKey, qualifiedKey, alike.qualifiedName]
    have own : R.Listed (c.symbols.names .locals container).values
        (c.symbols.names .locals container).values s' t' :=
      List.forall₂_same.2 fun id hid => law.own rel' (law.codebase.symbols.names hid).owns
    refine .get (.pure rel' (List.rel_append h (listed_of_entries ?_)))
    change List.Forall₂ _ (s'.select c _ (Query.isVisibleLocal kinds
      (xs.filterMap fun id => (s'.symbol? c id).map qualifiedKey))) _
    rw [taken]
    refine law.select rel' own ?_
    intro x y alike
    rw [Query.isVisibleLocal, Query.isVisibleLocal, alike.qualifiedName, alike.kind]

theorem localSymbols (law : R.Lawful c) (rel : R.related s t) {node : NodeId}
    (has : c.tree.Has node) (kinds : FlagSet MemberKind) (filter : Filter) :
    Coupled R.coupling s t (Query.localSymbols c node kinds filter)
      (Query.localSymbols c node kinds filter) R.Listed := by
  obtain ⟨containers, hcontainers⟩ := Tree.containersAround_eq_ok has
  unfold Query.localSymbols
  refine .lift hcontainers ?_
  have parts : Coupled R.coupling s t (containers.mapM (Query.containerSymbols c kinds filter))
      (containers.mapM (Query.containerSymbols c kinds filter))
      fun xss yss s t => List.Forall₂ (fun xs ys => R.Listed xs ys s t) xss yss := by
    refine Coupled.mapM (C := R.coupling) (Q := fun s t xs ys => R.Listed xs ys s t)
      (R := fun _ _ => Eq) (fun _ _ _ _ _ h => h) ?_ rel (List.forall₂_same.2 fun _ _ => rfl) ?_
    · intro s t s' t' gs gt _ xs ys h
      exact law.listed_mono h gs gt
    · rintro a _ s' t' - - - rel' rfl
      exact law.containerSymbols rel' a kinds filter
  refine .bind parts ?_
  intro xss yss s' t' _ _ rel' h
  exact .pure rel' (List.rel_flatten h)

theorem withName (law : R.Lawful c) (rel : R.related s t) (name : String) {xs ys : List SymbolId}
    (h : R.Listed xs ys s t) :
    Coupled R.coupling s t (Query.withName c name xs) (Query.withName c name ys) R.Listed := by
  refine .get (.pure rel (listed_of_entries (law.select rel h ?_)))
  intro x y alike
  rw [alike.name]

end Correspondence.Lawful

end PapyrusAnalysis
