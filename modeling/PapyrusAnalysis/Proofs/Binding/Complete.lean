import PapyrusAnalysis.Proofs.Binding.Grammar

/-!
# Every declaration gets a symbol

Binding goes from a script to its definitions, from these to what they hold, and on to the
parameters and variables of functions and events. It stops at what has no name. So in a grammatical
tree in which every declaration has a name, everything that is declared in a script gets a symbol.

## Main definitions

* `Tree.Named`: every declaration has a name.

## Main statements

* `Binding.mem_scriptNodes`: what is declared in a script is among the nodes that it declares.
-/

namespace PapyrusAnalysis

/-- Every declaration has a name, imports apart. -/
def Tree.Named (t : Tree) : Prop :=
  ∀ {node kind identifier}, t.declaration? node = some (kind, identifier) → kind ≠ .importLine →
    Binding.isNamed t identifier

/-- Whether every declaration has a name, imports apart. -/
def Tree.allNamed (t : Tree) : Bool :=
  t.ids.all fun id => (t.declaration? id).all fun declared =>
    declared.1 = .importLine || Binding.isNamed t declared.2

theorem Tree.named_of_allNamed {t : Tree} (h : t.allNamed) : t.Named := by
  intro node kind identifier hd other
  obtain ⟨n, hn⟩ := node?_of_declaration? hd
  have listed : node ∈ t.ids := List.mem_map.2 ⟨node.index, List.mem_range.2 (has_of_node? hn), rfl⟩
  have named := List.all_eq_true.1 h node listed
  rw [hd] at named
  simpa [other] using named

namespace Binding

variable {t : Tree} {x p root header : NodeId} {form : Form}

/-! ## Lists of nodes -/

theorem mem_definitionNodes_succ {depth : Nat} (h : x ∈ definitionNodes t depth p) :
    x ∈ definitionNodes t (depth + 1) p := by
  induction depth generalizing p with
  | zero => cases h
  | succ depth ih =>
    unfold definitionNodes at h ⊢
    cases hf : t.formAt p with
    | none => simp [hf] at h
    | some form =>
      rw [hf] at h
      cases form with
      | state identifier isAuto definitions =>
        dsimp only at h ⊢
        split at h
        · rename_i named
          simp only [named, if_true, List.mem_cons, List.mem_flatMap] at h ⊢
          rcases h with rfl | ⟨d, hd, hx⟩
          · exact .inl rfl
          · exact .inr ⟨d, hd, ih hx⟩
        · rename_i unnamed
          simpa [unnamed] using h
      | _ => exact h

theorem definitionNodes_mono {depth other : Nat} (le : depth ≤ other)
    (h : x ∈ definitionNodes t depth p) : x ∈ definitionNodes t other p := by
  induction le with
  | refl => exact h
  | step _ ih => exact mem_definitionNodes_succ ih

/-- The functions of a property are listed, whatever their names. -/
theorem mem_accessors_iff {functions : List NodeId} :
    x ∈ accessors t functions ↔ x ∈ functions := by
  refine ⟨mem_accessors, fun hx => ?_⟩
  simp only [accessors, List.mem_append, Option.mem_toList, List.mem_filter, Bool.and_eq_true,
    decide_eq_true_eq]
  by_cases getter : accessorAt t "get" functions = some x
  · exact .inl (.inl getter)
  by_cases setter : accessorAt t "set" functions = some x
  · exact .inl (.inr setter)
  · exact .inr ⟨hx, Ne.symm getter, Ne.symm setter⟩

/-! ## Parts of definitions -/

theorem header_of_function {statements : List NodeId} (h : t.Grammatical)
    (hf : t.formAt x = some (.function header statements)) :
    ∃ returnType identifier list modifiers,
      t.formAt header = some (.functionHeader returnType identifier list modifiers) := by
  have slot : (header, Role.functionHeader) ∈ (Form.function header statements).slots := by
    simp [Form.slots]
  obtain ⟨inner, hi, admitted⟩ := h.part hf slot
  cases inner <;> first | exact ⟨_, _, _, _, hi⟩ | cases admitted

theorem header_of_event {statements : List NodeId} (h : t.Grammatical)
    (hf : t.formAt x = some (.event header statements)) :
    ∃ identifier list, t.formAt header = some (.eventHeader identifier list) := by
  have slot : (header, Role.eventHeader) ∈ (Form.event header statements).slots := by
    simp [Form.slots]
  obtain ⟨inner, hi, admitted⟩ := h.part hf slot
  cases inner <;> first | exact ⟨_, _, hi⟩ | cases admitted

theorem header_of_script {imports definitions : List NodeId} (h : t.Grammatical)
    (hf : t.formAt x = some (.script header imports definitions)) :
    ∃ identifier extended modifiers,
      t.formAt header = some (.scriptHeader identifier extended modifiers) := by
  have slot : (header, Role.scriptHeader) ∈ (Form.script header imports definitions).slots := by
    simp [Form.slots]
  obtain ⟨inner, hi, admitted⟩ := h.part hf slot
  cases inner <;> first | exact ⟨_, _, _, hi⟩ | cases admitted

theorem mem_definitionNodes_self (h : t.Grammatical) (hf : t.formAt x = some form)
    (defines : isDefinition form) (depth : Nat) : x ∈ definitionNodes t (depth + 1) x := by
  cases form <;> simp only [isDefinition, Bool.false_eq_true] at defines
  case function =>
    obtain ⟨_, _, _, _, hg⟩ := header_of_function h hf
    simp [definitionNodes, functionNodes, hf, hg]
  case event =>
    obtain ⟨_, _, hg⟩ := header_of_event h hf
    simp [definitionNodes, eventNodes, hf, hg]
  all_goals simp [definitionNodes, propertyNodes, groupNodes, structNodes, hf]

/-- What a definition declares that is a part of another one is declared by that one too. -/
theorem definitionNodes_sub {above : Form} {role : Role} (named : t.Named)
    (hx : t.formAt x = some form) (defines : isDefinition form) (ha : t.formAt p = some above)
    (admitted : role.admits form) (holds : role.Holds above x) :
    role = .definition ∨ isDefinition above ∧
      ∀ y ∈ definitionNodes t 2 x, y ∈ definitionNodes t 2 p := by
  -- What the phrase above lists for its parts comes behind the phrase itself.
  have listed {title : NodeId} {kind : SymbolKind} {parts : List NodeId} {f : NodeId → List NodeId}
      (hd : t.declaration? p = some (kind, title)) (other : kind ≠ .importLine) (hm : x ∈ parts)
      {y : NodeId} (hy : y ∈ f x) :
      y ∈ p :: if isNamed t title then parts.flatMap f else [] := by
    rw [if_pos (named hd other)]
    exact List.mem_cons_of_mem _ (List.mem_flatMap.2 ⟨x, hm, hy⟩)
  cases role with
  | definition => exact .inl rfl
  | groupProperty =>
    obtain ⟨title, modifiers, properties, rfl, hm⟩ := holds
    have hd : t.declaration? p = some (.group, title) := by simp [Tree.declaration?, ha]
    cases form <;> simp only [Role.admits, isProperty, Bool.false_eq_true] at admitted
    refine .inr ⟨rfl, fun y hy => ?_⟩
    simp only [definitionNodes, groupNodes, hx, ha] at hy ⊢
    exact listed hd (by decide) hm hy
  | stateDefinition =>
    obtain ⟨title, isAuto, definitions, rfl, hm⟩ := holds
    have hd : t.declaration? p = some (.state, title) := by simp [Tree.declaration?, ha]
    have same : definitionNodes t 2 x = definitionNodes t 1 x := by
      cases form <;> simp only [Role.admits, isBody, Bool.false_eq_true] at admitted
      all_goals simp only [definitionNodes, hx]
    refine .inr ⟨rfl, fun y hy => ?_⟩
    rw [same] at hy
    rw [definitionNodes, ha]
    exact listed hd (by decide) hm hy
  | accessor =>
    obtain ⟨type, title, initial, functions, modifiers, rfl, hm⟩ := holds
    have hd : t.declaration? p = some (.property, title) := by simp [Tree.declaration?, ha]
    cases form <;> simp only [Role.admits, Bool.false_eq_true] at admitted
    refine .inr ⟨rfl, fun y hy => ?_⟩
    simp only [definitionNodes, propertyNodes, hx, ha] at hy ⊢
    exact listed hd (by decide) (mem_accessors_iff.2 hm) hy
  | structMember =>
    obtain ⟨title, members, rfl, hm⟩ := holds
    have hd : t.declaration? p = some (.struct, title) := by simp [Tree.declaration?, ha]
    cases form <;> simp only [Role.admits, isVariable, Bool.false_eq_true] at admitted
    refine .inr ⟨rfl, fun y hy => ?_⟩
    simp only [definitionNodes, structNodes, hx, ha] at hy ⊢
    obtain rfl := List.mem_singleton.1 hy
    refine listed hd (by decide) hm ?_
    simp [nodeIf, isWanted_of_formAt hx, isVariable]
  | _ =>
    cases form <;> simp only [isDefinition, Bool.false_eq_true] at defines <;> cases admitted

/-- A definition in a script adds what it declares to what the script declares. -/
theorem definitionNodes_sub_script (h : t.Grammatical) (grown : t.Grown) (named : t.Named)
    (hroot : t.isWanted Form.isScript root) (within : t.Within x root)
    (hx : t.formAt x = some form) (defines : isDefinition form) :
    ∀ y ∈ definitionNodes t 2 x, y ∈ scriptNodes t root := by
  induction x using grown.inward generalizing form with
  | step x ih =>
    have ne : root ≠ x := by
      rintro rfl
      rw [isWanted_of_formAt hx] at hroot
      cases form <;> simp only [isDefinition, Bool.false_eq_true] at defines <;> cases hroot
    obtain ⟨p, hp, outside⟩ := grown.exists_parent within ne
    obtain ⟨above, role, ha, admitted, holds⟩ := h.exists_role grown hx hp
    rcases definitionNodes_sub named hx defines ha admitted holds with rfl | ⟨defines', sub⟩
    · obtain ⟨header, imports, definitions, rfl, hm⟩ := holds
      obtain rfl := h.eq_of_script grown hroot outside (isWanted_of_formAt ha _)
        (.refl (Tree.has_of_formAt ha))
      obtain ⟨identifier, extended, modifiers, hg⟩ := header_of_script h ha
      have hd : t.declaration? p = some (.script, identifier) := by
        simp [Tree.declaration?, ha, hg]
      have deep : 2 ≤ t.size + 1 := Nat.succ_le_succ (Nat.one_le_of_lt (Tree.has_of_formAt ha))
      intro y hy
      simp only [scriptNodes, ha, hg, named hd (by decide), if_true, List.mem_cons,
        List.mem_append, List.mem_flatMap]
      exact .inr (.inl ⟨x, hm, definitionNodes_mono deep hy⟩)
    · exact fun y hy => ih p hp outside ha defines' y (sub y hy)

/-! ## Functions and events -/

/-- A function or event with a list of parameters and some statements. -/
inductive Body (t : Tree) (f list : NodeId) (statements : List NodeId) : Prop where
  | function {header identifier : NodeId} {returnType : Option NodeId}
      {modifiers : FlagSet Modifier}
      (hf : t.formAt f = some (.function header statements))
      (hg : t.formAt header = some (.functionHeader returnType identifier list modifiers))
  | event {header identifier : NodeId} (hf : t.formAt f = some (.event header statements))
      (hg : t.formAt header = some (.eventHeader identifier list))

variable {f list : NodeId} {statements : List NodeId}

theorem Body.exists_form (body : Body t f list statements) :
    ∃ form, t.formAt f = some form ∧ isDefinition form ∧ form.block? = some statements := by
  cases body with
  | function hf _ => exact ⟨_, hf, rfl, rfl⟩
  | event hf _ => exact ⟨_, hf, rfl, rfl⟩

theorem Body.mem_definitionNodes (body : Body t f list statements) (named : t.Named)
    (hx : x ∈ parameterNodes t list ++ localNodes t statements) : x ∈ definitionNodes t 2 f := by
  cases body with
  | @function header identifier returnType modifiers hf hg =>
    have hd : t.declaration? f = some (.function, identifier) := by
      simp [Tree.declaration?, hf, hg]
    simp only [definitionNodes, functionNodes, bodyNodes, hf, hg, named hd (by decide), if_true]
    exact List.mem_cons_of_mem _ hx
  | @event header identifier hf hg =>
    have hd : t.declaration? f = some (.event, identifier) := by simp [Tree.declaration?, hf, hg]
    simp only [definitionNodes, eventNodes, bodyNodes, hf, hg, named hd (by decide), if_true]
    exact List.mem_cons_of_mem _ hx

section Around

variable (h : t.Grammatical) (grown : t.Grown) (hroot : t.isWanted Form.isScript root)
  (within : t.Within x root) (hx : t.formAt x = some form)

include h grown hroot within hx

/-- What is not a script itself is a part of something in the script. -/
theorem exists_role_of_within (other : form.isScript = false) :
    ∃ (p : NodeId) (above : Form) (role : Role), t.parentAt x = some p ∧ t.Within p root ∧
      t.formAt p = some above ∧ role.admits form ∧ role.Holds above x := by
  have ne : root ≠ x := by
    rintro rfl
    cases other.symm.trans ((isWanted_of_formAt hx _).symm.trans hroot)
  obtain ⟨p, hp, outside⟩ := grown.exists_parent within ne
  obtain ⟨above, role, ha, admitted, holds⟩ := h.exists_role grown hx hp
  exact ⟨p, above, role, hp, outside, ha, admitted, holds⟩

theorem exists_body_of_parameter (isParameter : isParameter form) :
    ∃ f list statements parameters, Body t f list statements ∧ t.Within f root ∧
      t.formAt list = some (.parameterList parameters) ∧ x ∈ parameters := by
  cases form <;> simp only [Binding.isParameter, Bool.false_eq_true] at isParameter
  obtain ⟨list, above, role, -, within, hl, admitted, holds⟩ :=
    exists_role_of_within h grown hroot within hx rfl
  obtain rfl : role = .parameter := by cases role <;> first | rfl | cases admitted
  obtain ⟨parameters, rfl, hm⟩ := holds
  obtain ⟨header, above, role, -, within, hg, admitted, holds⟩ :=
    exists_role_of_within h grown hroot within hl rfl
  obtain rfl : role = .parameterList := by cases role <;> first | rfl | cases admitted
  rcases holds with ⟨title, rfl⟩ | ⟨returnType, title, modifiers, rfl⟩
  · obtain ⟨f, above, role, -, within, hf, admitted, holds⟩ :=
      exists_role_of_within h grown hroot within hg rfl
    obtain rfl : role = .eventHeader := by cases role <;> first | rfl | cases admitted
    obtain ⟨statements, rfl⟩ := holds
    exact ⟨f, list, statements, parameters, .event hf hg, within, hl, hm⟩
  · obtain ⟨f, above, role, -, within, hf, admitted, holds⟩ :=
      exists_role_of_within h grown hroot within hg rfl
    obtain rfl : role = .functionHeader := by cases role <;> first | rfl | cases admitted
    obtain ⟨statements, rfl⟩ := holds
    exact ⟨f, list, statements, parameters, .function hf hg, within, hl, hm⟩

/-- A statement lies in a statement of a function or event. -/
theorem exists_body_of_statement
    (isStep : form.isStatement ∨ ∃ condition statements, form = .ifBranch condition statements) :
    ∃ f list statements s, Body t f list statements ∧ t.Within f root ∧ s ∈ statements ∧
      t.Within x s := by
  induction x using grown.inward generalizing form with
  | step x ih =>
    have plain : form.isScript = false := by
      rcases isStep with isStatement | ⟨condition, statements, rfl⟩
      · cases form <;> first | rfl | cases isStatement
      · rfl
    obtain ⟨p, above, role, hp, inside, ha, admitted, holds⟩ :=
      exists_role_of_within h grown hroot within hx plain
    have further (isStep : above.isStatement ∨
        ∃ condition statements, above = .ifBranch condition statements) :
        ∃ f list statements s, Body t f list statements ∧ t.Within f root ∧ s ∈ statements ∧
          t.Within x s := by
      obtain ⟨f, list, statements, s, body, around, hs, hw⟩ := ih p hp inside ha isStep
      exact ⟨f, list, statements, s, body, around, hs, (grown.within_of_parentAt hp).2 (.inr hw)⟩
    have place : role = .statement ∨ role = .branch := by
      rcases isStep with isStatement | ⟨condition, statements, rfl⟩
      · cases form <;> simp only [Form.isStatement, Bool.false_eq_true] at isStatement
        all_goals cases role <;> first | exact .inl rfl | cases admitted
      · cases role <;> first | exact .inr rfl | cases admitted
    rcases place with rfl | rfl
    · obtain ⟨statements, block, hm⟩ := holds
      have self : t.Within x x := .refl (Tree.has_of_formAt hx)
      cases above <;> simp only [Form.block?, Option.some.injEq, reduceCtorEq] at block
      case function header statements =>
        obtain ⟨_, _, list, _, hg⟩ := header_of_function h ha
        exact ⟨p, list, _, x, .function ha hg, inside, block ▸ hm, self⟩
      case event header statements =>
        obtain ⟨_, list, hg⟩ := header_of_event h ha
        exact ⟨p, list, _, x, .event ha hg, inside, block ▸ hm, self⟩
      case ifBranch => exact further (.inr ⟨_, _, rfl⟩)
      case whileLoop => exact further (.inl rfl)
    · obtain ⟨branches, rfl, hm⟩ := holds
      exact further (.inl rfl)

end Around

/-- What is declared in a script is among the nodes that the script declares. -/
theorem mem_scriptNodes {kind : SymbolKind} {identifier : NodeId} (h : t.Grammatical)
    (wf : t.WellFormed) (named : t.Named) (hroot : t.isWanted Form.isScript root)
    (within : t.Within x root) (hd : t.declaration? x = some (kind, identifier))
    (other : kind ≠ .importLine) : x ∈ scriptNodes t root := by
  have grown := wf.grown
  obtain ⟨n, hn⟩ := Tree.node?_of_declaration? hd
  have hx := Tree.formAt_eq hn
  have definition (defines : isDefinition n.form) : x ∈ scriptNodes t root :=
    definitionNodes_sub_script h grown named hroot within hx defines x
      (mem_definitionNodes_self h hx defines 1)
  have ofBody {f list : NodeId} {statements : List NodeId} (body : Body t f list statements)
      (around : t.Within f root) (hm : x ∈ parameterNodes t list ++ localNodes t statements) :
      x ∈ scriptNodes t root := by
    obtain ⟨form, hf, defines, -⟩ := body.exists_form
    exact definitionNodes_sub_script h grown named hroot around hf defines x
      (body.mem_definitionNodes named hm)
  cases hform : n.form <;> rw [hform] at hx definition
  case script header imports definitions =>
    obtain rfl := h.eq_of_script grown hroot within (isWanted_of_formAt hx _)
      (.refl (Tree.has_of_formAt hx))
    obtain ⟨_, _, _, hg⟩ := header_of_script h hx
    simp [scriptNodes, hx, hg]
  case parameter =>
    obtain ⟨f, list, statements, parameters, body, around, hl, hm⟩ :=
      exists_body_of_parameter h grown hroot within hx rfl
    refine ofBody body around (List.mem_append_left _ ?_)
    simp only [parameterNodes, hl, List.mem_flatMap]
    exact ⟨x, hm, by simp [nodeIf, isWanted_of_formAt hx, isParameter]⟩
  case declaration =>
    obtain ⟨f, list, statements, s, body, around, hs, hw⟩ :=
      exists_body_of_statement h grown hroot within hx (.inl rfl)
    refine ofBody body around (List.mem_append_right _ ?_)
    obtain ⟨_, hf, -, block⟩ := body.exists_form
    obtain ⟨above, ha, rfl⟩ := Option.map_eq_some_iff.1 hf
    have has := wf.descending.has ha (Form.mem_children_of_block block hs)
    simp only [localNodes, List.mem_flatMap, List.mem_filter]
    exact ⟨s, hs, wf.mem_preorder has hw has, isWanted_of_formAt hx _⟩
  case importLine =>
    simp only [Tree.declaration?, hx, Option.some.injEq, Prod.mk.injEq] at hd
    exact absurd hd.1.symm other
  all_goals first | exact definition rfl | simp [Tree.declaration?, hx] at hd

end Binding

end PapyrusAnalysis
