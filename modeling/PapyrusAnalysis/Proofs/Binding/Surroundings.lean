import PapyrusAnalysis.Proofs.Binding.OneToOne
import PapyrusAnalysis.Proofs.Program.Index

/-!
# What is around a struct

A struct that has a symbol is a definition of a script, or of a state inside it, and states can lie
in states. Nothing else is around it, so it is a member of nothing, and the names that it keeps are
those of its own variables.

## Main definitions

* `Binding.Nests`: a definition is another one, or lies in it with nothing but states in between.
* `Binding.Housed`: a node lies in a script with nothing but states in between.
-/

namespace PapyrusAnalysis

/-- A node around a node is another one. -/
theorem Tree.Grown.ne_of_mem_outward {t : Tree} {id a : NodeId} (grown : t.Grown)
    (h : a ∈ t.outward id) : id ≠ a := by
  rintro rfl
  cases hp : t.parentAt id with
  | none => simp [outward_of_none hp] at h
  | some p =>
    obtain ⟨-, has, before⟩ := grown.has_of_parentAt hp
    rw [outward_of_parent grown hp] at h
    have := (within_iff.2 ⟨has, List.mem_cons.1 h⟩).index_le grown
    omega

namespace Form

def isState : Form → Bool
  | state .. => true
  | _ => false

theorem mem_children_of_state {form : Form} {identifier definition : NodeId} {isAuto : Bool}
    {definitions : List NodeId} (hf : form = state identifier isAuto definitions)
    (hm : definition ∈ definitions) : definition ∈ form.children := by
  rw [hf]
  exact List.mem_cons_of_mem _ hm

end Form

namespace Binding

variable {t : Tree} {part definition d x a : NodeId}

/-! ## Definitions without structs -/

theorem not_struct_of_form {form : Form} (hf : t.formAt x = some form)
    (other : form.isStruct = false) : t.isWanted Form.isStruct x = false :=
  (isWanted_of_formAt hf _).trans other

theorem not_struct_of_wanted {wanted : Form → Bool} (h : t.isWanted wanted x)
    (other : ∀ form, wanted form → form.isStruct = false) : t.isWanted Form.isStruct x = false := by
  obtain ⟨form, hf, isWanted⟩ := isWanted_iff.1 h
  exact not_struct_of_form hf (other form isWanted)

theorem not_struct_of_bodyNodes {identifier list : NodeId} {statements : List NodeId}
    (h : x ∈ bodyNodes t identifier list statements) : t.isWanted Form.isStruct x = false := by
  unfold bodyNodes at h
  split at h
  · rcases List.mem_append.1 h with h | h
    · unfold parameterNodes at h
      split at h
      · obtain ⟨parameter, -, inside⟩ := List.mem_flatMap.1 h
        exact not_struct_of_wanted (List.mem_filter.1 inside).2
          (by rintro ⟨⟩ <;> simp [isParameter, Form.isStruct])
      · cases h
    · obtain ⟨statement, -, inside⟩ := List.mem_flatMap.1 h
      exact not_struct_of_wanted (List.mem_filter.1 inside).2
        (by rintro ⟨⟩ <;> simp [isDeclaration, Form.isStruct])
  · cases h

theorem not_struct_of_functionNodes (h : x ∈ functionNodes t part) :
    t.isWanted Form.isStruct x = false := by
  unfold functionNodes at h
  split at h
  · rename_i hf
    split at h
    · rcases List.mem_cons.1 h with rfl | h
      · exact not_struct_of_form hf rfl
      · exact not_struct_of_bodyNodes h
    · cases h
  · cases h

theorem not_struct_of_eventNodes (h : x ∈ eventNodes t part) :
    t.isWanted Form.isStruct x = false := by
  unfold eventNodes at h
  split at h
  · rename_i hf
    split at h
    · rcases List.mem_cons.1 h with rfl | h
      · exact not_struct_of_form hf rfl
      · exact not_struct_of_bodyNodes h
    · cases h
  · cases h

theorem not_struct_of_propertyNodes (h : x ∈ propertyNodes t part) :
    t.isWanted Form.isStruct x = false := by
  unfold propertyNodes at h
  split at h
  · rename_i hf
    rcases List.mem_cons.1 h with rfl | h
    · exact not_struct_of_form hf rfl
    split at h
    · obtain ⟨accessor, -, inside⟩ := List.mem_flatMap.1 h
      exact not_struct_of_functionNodes inside
    · cases h
  · cases h

theorem not_struct_of_groupNodes (h : x ∈ groupNodes t part) :
    t.isWanted Form.isStruct x = false := by
  unfold groupNodes at h
  split at h
  · rename_i hf
    rcases List.mem_cons.1 h with rfl | h
    · exact not_struct_of_form hf rfl
    split at h
    · obtain ⟨property, -, inside⟩ := List.mem_flatMap.1 h
      exact not_struct_of_propertyNodes inside
    · cases h
  · cases h

/-! ## States inside each other -/

/-- A definition is another one, or lies in it with nothing but states in between. -/
inductive Nests (t : Tree) : NodeId → NodeId → Prop where
  | refl (d : NodeId) : Nests t d d
  | state {part identifier definition d : NodeId} {isAuto : Bool} {definitions : List NodeId}
      (hf : t.formAt part = some (.state identifier isAuto definitions))
      (hm : definition ∈ definitions) (inner : Nests t definition d) : Nests t part d

theorem Nests.within (wf : t.WellFormed) (h : Nests t part d) (has : t.Has part) :
    t.Within d part := by
  induction h with
  | refl d => exact .refl has
  | state hf hm _ ih =>
    obtain ⟨n, hn, hform⟩ := Option.map_eq_some_iff.1 hf
    have child := Form.mem_children_of_state hform hm
    exact wf.within_of_part hn child (ih (wf.descending.has hn child))

/-- What is around a nested definition is around the outermost one, or a state. -/
theorem Nests.around (wf : t.WellFormed) (h : Nests t part d) (around : t.Within d a) :
    t.Within part a ∨ a = d ∨ t.isWanted Form.isState a := by
  induction h with
  | refl d => exact .inl around
  | @state part identifier definition d isAuto definitions hf hm inner ih =>
    rcases ih around with outside | rest
    · obtain ⟨n, hn, hform⟩ := Option.map_eq_some_iff.1 hf
      have parent := wf.parentAt hn (Form.mem_children_of_state hform hm)
      rcases (wf.grown.within_of_parentAt parent).1 outside with rfl | outside
      · cases inner with
        | refl => exact .inr (.inl rfl)
        | state hf' => exact .inr (.inr (isWanted_of_formAt hf' _))
      · exact .inl outside
    · exact .inr rest

/-- A struct that gets a symbol is nested in the definition that it is bound with. -/
theorem nests_of_struct {depth : Nat} (h : d ∈ definitionNodes t depth part)
    (struct : t.isWanted Form.isStruct d) : Nests t part d := by
  induction depth generalizing part with
  | zero => cases h
  | succ depth ih =>
    unfold definitionNodes at h
    split at h
    case h_1 hf | h_2 hf =>
      cases List.mem_singleton.1 h
      cases struct.symm.trans (not_struct_of_form hf rfl)
    case h_3 => cases struct.symm.trans (not_struct_of_propertyNodes h)
    case h_4 => cases struct.symm.trans (not_struct_of_functionNodes h)
    case h_5 => cases struct.symm.trans (not_struct_of_eventNodes h)
    case h_6 => cases struct.symm.trans (not_struct_of_groupNodes h)
    case h_7 hf =>
      rw [structNodes, hf] at h
      rcases List.mem_cons.1 h with rfl | h
      · exact .refl d
      split at h
      · obtain ⟨member, -, inside⟩ := List.mem_flatMap.1 h
        cases struct.symm.trans (not_struct_of_wanted (List.mem_filter.1 inside).2
          (by rintro ⟨⟩ <;> simp [isVariable, Form.isStruct]))
      · cases h
    case h_8 hf =>
      rcases List.mem_cons.1 h with rfl | h
      · cases struct.symm.trans (not_struct_of_form hf rfl)
      split at h
      · obtain ⟨definition, hm, inside⟩ := List.mem_flatMap.1 h
        exact .state hf hm (ih inside)
      · cases h
    case h_9 => cases h

/-- What gets a symbol within a nested definition is listed for this definition. -/
theorem Nests.mem_definitionNodes (wf : t.WellFormed) (h : Nests t part d) {depth : Nat}
    (within : t.Within x d) (listed : x ∈ definitionNodes t depth part) :
    ∃ depth', x ∈ definitionNodes t depth' d := by
  induction h generalizing depth with
  | refl d => exact ⟨depth, listed⟩
  | @state part identifier definition d isAuto definitions hf hm inner ih =>
    obtain ⟨n, hn, hform⟩ := Option.map_eq_some_iff.1 hf
    have child := Form.mem_children_of_state hform hm
    have inside : t.Within x definition :=
      within.trans wf.grown (inner.within wf (wf.descending.has hn child))
    cases depth with
    | zero => cases listed
    | succ depth =>
      rw [definitionNodes, hf] at listed
      rcases List.mem_cons.1 listed with rfl | listed
      · exact absurd inside (wf.not_within_part hn child)
      split at listed
      · have own := mem_own_list wf hn (fun _ => Form.mem_children_of_state hform)
          (fun _ => below_definitionNodes wf) child inside listed
        exact ih within own.2
      · cases listed

/-! ## Structs in scripts -/

/-- A node lies in a script with nothing but states in between. -/
def Housed (t : Tree) (root d : NodeId) : Prop :=
  ∃ header imports definitions definition, t.formAt root =
    some (.script header imports definitions) ∧ definition ∈ definitions ∧ Nests t definition d

theorem housed_of_struct {root : NodeId} (h : d ∈ scriptNodes t root)
    (struct : t.isWanted Form.isStruct d) : Housed t root d := by
  unfold scriptNodes at h
  split at h
  · rename_i header imports definitions hf
    split at h
    · rcases List.mem_cons.1 h with rfl | h
      · cases struct.symm.trans (not_struct_of_form hf rfl)
      split at h
      · rcases List.mem_append.1 h with h | h
        · obtain ⟨definition, hm, inside⟩ := List.mem_flatMap.1 h
          exact ⟨header, imports, definitions, definition, hf, hm, nests_of_struct inside struct⟩
        · obtain ⟨line, -, inside⟩ := List.mem_flatMap.1 h
          cases struct.symm.trans (not_struct_of_wanted (List.mem_filter.1 inside).2
            (by rintro ⟨⟩ <;> simp [isImport, Form.isStruct]))
      · cases h
    · cases h
  · cases h

namespace Housed

variable {root : NodeId}

/-- Around a struct there are states and the script. -/
theorem around (wf : t.WellFormed) (top : t.ScriptsOnTop) (h : Housed t root d)
    (around : t.Within d a) : a = d ∨ a = root ∨ t.isWanted Form.isState a := by
  obtain ⟨header, imports, definitions, definition, hf, hm, nests⟩ := h
  obtain ⟨n, hn, hform⟩ := Option.map_eq_some_iff.1 hf
  rcases nests.around wf around with outside | rfl | state
  · have parent : t.parentAt definition = some root :=
      wf.parentAt hn (by simp [hform, Form.children, hm])
    have alone : t.parentAt root = none :=
      (Tree.parentAt_eq hn).trans (top root n hn (by rw [hform]; rfl))
    rcases (wf.grown.within_of_parentAt parent).1 outside with rfl | outside
    · cases nests with
      | refl => exact .inl rfl
      | state hf' => exact .inr (.inr (isWanted_of_formAt hf' _))
    · exact .inr (.inl ((Tree.within_of_no_parent alone).1 outside).2)
  · exact .inl rfl
  · exact .inr (.inr state)

/-- What gets a symbol within a struct is listed for it. -/
theorem mem_structNodes (wf : t.WellFormed) (top : t.ScriptsOnTop) (h : Housed t root d)
    (struct : t.isWanted Form.isStruct d) (within : t.Within x d)
    (bound : x ∈ t.roots.flatMap (scriptNodes t)) : x ∈ structNodes t d := by
  obtain ⟨header, imports, definitions, definition, hf, hm, nests⟩ := h
  obtain ⟨n, hn, hform⟩ := Option.map_eq_some_iff.1 hf
  have child : definition ∈ n.form.children := by simp [hform, Form.children, hm]
  have inside := within.trans wf.grown (nests.within wf (wf.descending.has hn child))
  have listed := (mem_definitionNodes wf top hf hm inside bound).2
  obtain ⟨depth, own⟩ := nests.mem_definitionNodes wf within listed
  obtain ⟨form, hform', isStruct⟩ := isWanted_iff.1 struct
  cases depth with
  | zero => cases own
  | succ depth =>
    cases form with
    | struct => rwa [definitionNodes, hform'] at own
    | _ => cases isStruct

end Housed

/-- A part of a struct that gets a symbol becomes a member of it. -/
theorem mem_memberParts_of_structNodes (h : x ∈ structNodes t d) (other : x ≠ d) :
    x ∈ memberParts t d := by
  unfold structNodes at h
  unfold memberParts
  split at h
  · rename_i hf
    rw [hf]
    have h := (List.mem_cons.1 h).resolve_left other
    dsimp only
    split at h
    · rename_i named
      obtain ⟨member, hm, inside⟩ := List.mem_flatMap.1 h
      obtain ⟨single, wanted⟩ := List.mem_filter.1 inside
      cases List.mem_singleton.1 single
      rw [if_pos named]
      exact List.mem_filter.2 ⟨hm, wanted⟩
    · cases h
  · cases h

end Binding

/-! ## Bound codebases -/

/-- Binding all scripts leads to the symbols to which binding them one by one leads. -/
theorem Program.mapM_of_foldlM {roots : List NodeId} {p q : Program} (b : Binding)
    (sound : Binding.Sound p.tree p.symbols) (same : p.symbols = b.symbols)
    (run : roots.foldlM Program.bindScript p = .ok q) :
    ∃ answers b', roots.mapM (Binding.script p.tree) b = .ok (answers, b') ∧
      b'.symbols = q.symbols := by
  induction roots generalizing p b with
  | nil =>
    cases run
    exact ⟨[], b, rfl, same.symm⟩
  | cons root roots ih =>
    rw [List.foldlM_cons] at run
    obtain ⟨p', first, rest⟩ := exists_of_bind_eq_ok run
    rw [Program.bindScript_eq] at first
    obtain ⟨⟨answer, b₁⟩, bound, named⟩ := exists_of_bind_eq_ok first
    obtain ⟨name, -, last⟩ := exists_of_bind_eq_ok named
    cases last
    obtain ⟨sound', -, -, more, -, again⟩ := Binding.script_eq_ok sound bound
    have step : Binding.script p.tree root b = .ok (answer, ⟨b₁.symbols, b.report ++ more⟩) := by
      obtain ⟨symbols, report⟩ := b
      cases same
      exact again report
    obtain ⟨answers, b', rest', same'⟩ := ih ⟨b₁.symbols, b.report ++ more⟩ sound' rfl rest
    refine ⟨answer :: answers, b', ?_, same'⟩
    rw [List.mapM_cons, bind_ok step]
    exact bind_ok rest'

namespace Codebase

open Binding

variable {c : Codebase}

/-- The symbols of a codebase come from binding its tree. -/
theorem Bound.exists_binding (bound : c.Bound) :
    ∃ b, Binding.ofTree c.tree = .ok b ∧ b.symbols = c.symbols := by
  cases bound with
  | binding run => exact ⟨_, run, rfl⟩
  | @program t p run =>
    obtain ⟨answers, b, all, same⟩ :=
      Program.mapM_of_foldlM (p := ⟨t, {}, ∅, []⟩) {} (.empty t) rfl run
    have tree : p.tree = t := Program.tree_foldlM run
    refine ⟨b, ?_, same⟩
    change Binding.ofTree p.tree = _
    rw [tree]
    exact congrArg (· >>= fun r => Except.ok r.2) all

/-- What binding a tree in which every node is used once comes to. -/
structure Declares (c : Codebase) : Prop where
  wellFormed : c.tree.WellFormed
  top : c.tree.ScriptsOnTop
  symbols : Binding.Sound c.tree c.symbols
  furnished : ∀ {id symbol}, c.symbols.get? id = some symbol → Furnished c.tree c.symbols id symbol
  nodes : Binding.nodes c.symbols = c.tree.roots.flatMap (scriptNodes c.tree)
  nodup : (Binding.nodes c.symbols).Nodup

theorem Bound.declares (bound : c.Bound) (wf : c.tree.WellFormed) (top : c.tree.ScriptsOnTop) :
    c.Declares := by
  obtain ⟨b, run, same⟩ := bound.exists_binding
  obtain ⟨sound, made, nodup⟩ := Binding.ofTree_eq_ok wf top run
  have furnished {id : SymbolId} {symbol : Symbol} (hs : b.symbols.get? id = some symbol) :=
    Binding.furnished_ofTree run hs
  rw [same] at sound made nodup furnished
  exact ⟨wf, top, sound, furnished, made, nodup⟩

namespace Declares

variable {id other : SymbolId} {symbol : Symbol} {node : NodeId}

/-- A struct with a symbol lies in a script. -/
theorem housed (h : c.Declares) (hs : c.symbols.get? id = some symbol)
    (hd : symbol.declaration = some node) (kind : symbol.kind = .struct) :
    c.tree.isWanted Form.isStruct node ∧ ∃ root, Housed c.tree root node := by
  obtain ⟨node', identifier, hd', hk, -⟩ := (h.symbols.fits hs).declared
  cases hd.symm.trans hd'
  rw [kind] at hk
  obtain ⟨n, hn⟩ := Tree.node?_of_declaration? hk
  have struct : c.tree.isWanted Form.isStruct node := by
    rw [isWanted_of_formAt (Tree.formAt_eq hn)]
    exact Tree.isStruct_of_declaration? hn hk
  have bound := h.symbols.mem_nodes hs hd
  rw [h.nodes] at bound
  obtain ⟨root, -, inside⟩ := List.mem_flatMap.1 bound
  exact ⟨struct, root, housed_of_struct inside struct⟩

/-- A struct keeps the names of its own variables. -/
theorem member_of_kept (h : c.Declares) (hs : c.symbols.get? id = some symbol)
    (hd : symbol.declaration = some node) (kind : symbol.kind = .struct)
    (kept : other ∈ (c.symbols.names .locals node).values) :
    other ∈ symbol.members ∧ ∃ found, c.symbols.get? other = some found ∧ found.kind = .var := by
  obtain ⟨struct, root, housed⟩ := h.housed hs hd kind
  obtain ⟨found, declaration, hs', hd', keeper⟩ := h.symbols.names kept
  have bound := h.symbols.mem_nodes hs' hd'
  rw [h.nodes] at bound
  obtain ⟨_, identifier, hd'', hk, -⟩ := (h.symbols.fits hs').declared
  cases hd'.symm.trans hd''
  obtain ⟨n, hn⟩ := Tree.node?_of_declaration? hk
  have around : node ∈ c.tree.outward declaration := by
    rw [keeper?, Tree.ancestors_eq (Tree.formAt_eq hn)] at keeper
    exact List.mem_of_find?_eq_some (Except.ok.inj keeper)
  have within := Tree.within_iff.2 ⟨Tree.has_of_node? hn, .inr around⟩
  -- So the declaration is a part of the struct, and what it declares is a member.
  have part := mem_memberParts_of_structNodes
    (housed.mem_structNodes h.wellFormed h.top struct within bound)
    (h.wellFormed.grown.ne_of_mem_outward around)
  obtain ⟨form, hf, isStruct⟩ := isWanted_iff.1 struct
  cases form with
  | struct title members =>
    have own : ownParts? c.tree node = some (memberParts c.tree node) := by rw [ownParts?, hf]
    obtain ⟨member, hm, declared⟩ := exists_left_of_mem ((h.furnished hs).members hd own) part
    rw [memberParts, hf] at part
    dsimp only at part
    split at part
    · obtain ⟨form, hf', isVariable⟩ := isWanted_iff.1 (List.mem_filter.1 part).2
      have var : ∃ identifier, c.tree.declaration? declaration = some (.var, identifier) := by
        cases form <;> simp_all [Binding.isVariable, Tree.declaration?]
      obtain ⟨identifier, var⟩ := var
      cases h.symbols.eq_of_declaredAt h.nodup declared ⟨found, hs', hd'⟩
      exact ⟨hm, found, hs', h.symbols.kind_eq hs' hd' var⟩
    · cases part
  | _ => cases isStruct

end Declares

end Codebase

end PapyrusAnalysis
