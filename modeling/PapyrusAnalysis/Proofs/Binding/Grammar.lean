import PapyrusAnalysis.Proofs.Binding.Surroundings

/-!
# Grammatical trees

A tree can be put together in any way. In a `Grammatical` one, every part of a phrase is one that
the language has in its place. So a declaration stands among definitions, parameters or statements,
and this says what is around it and which container keeps its name.

## Main definitions

* `Role`: the places that phrases have for their parts.
* `Form.slots`: the parts of a phrase with their places.
* `Tree.Grammatical`: every part fits its place.
* `Role.Holds`: what a phrase with a part in some place looks like.
-/

namespace PapyrusAnalysis

/-- A place that a phrase has for a part. -/
inductive Role where
  | scriptHeader
  | importLine
  | definition
  | name
  | type
  | eventHeader
  | functionHeader
  | parameterList
  | parameter
  | groupProperty
  | stateDefinition
  | accessor
  | structMember
  | statement
  | branch
  | value
  | argument
  | literal
deriving DecidableEq, Repr

namespace Form

/-- Whether a phrase is a statement. -/
def isStatement : Form → Bool
  | assignment .. | declaration .. | expressionStatement _ | ifChain _ | returnStatement _
  | whileLoop .. => true
  | _ => false

/-- Whether a phrase stands for a value. -/
def isValue : Form → Bool
  | index .. | binary .. | cast .. | call .. | reference _ | typeTest .. | literalExpression _
  | memberAccess .. | newArray .. | newStruct _ | unary .. | literal _ => true
  | _ => false

/-- The parts of a phrase in source order, with their places. -/
def slots : Form → List (NodeId × Role)
  | script header imports definitions =>
    (header, .scriptHeader) :: imports.map (·, .importLine) ++ definitions.map (·, .definition)
  | scriptHeader title extended _ => (title, .name) :: extended.toList.map (·, .name)
  | importLine title | typeName title _ | customEvent title | reference title => [(title, .name)]
  | identifier _ | literal _ => []
  | event header statements => (header, .eventHeader) :: statements.map (·, .statement)
  | eventHeader title parameters => [(title, .name), (parameters, .parameterList)]
  | function header statements => (header, .functionHeader) :: statements.map (·, .statement)
  | functionHeader returnType title parameters _ =>
    returnType.toList.map (·, .type) ++ [(title, .name), (parameters, .parameterList)]
  | parameterList parameters => parameters.map (·, .parameter)
  | parameter type title initial _ | variableDefinition type title initial _
  | declaration type title initial =>
    (type, .type) :: (title, .name) :: initial.toList.map (·, .value)
  | group title _ properties => (title, .name) :: properties.map (·, .groupProperty)
  | property type title initial functions _ =>
    (type, .type) :: (title, .name) :: initial.toList.map (·, .value) ++
      functions.map (·, .accessor)
  | state title _ definitions => (title, .name) :: definitions.map (·, .stateDefinition)
  | struct title members => (title, .name) :: members.map (·, .structMember)
  | assignment left _ right => (left.toList ++ right.toList).map (·, .value)
  | expressionStatement inner | unary _ inner => [(inner, .value)]
  | ifChain branches => branches.map (·, .branch)
  | ifBranch condition statements =>
    condition.toList.map (·, .value) ++ statements.map (·, .statement)
  | returnStatement value => value.toList.map (·, .value)
  | whileLoop condition statements => (condition, .value) :: statements.map (·, .statement)
  | index left right | binary left _ right | memberAccess left right =>
    [(left, .value), (right, .value)]
  | cast inner type | typeTest inner type => [(inner, .value), (type, .type)]
  | call title arguments => (title, .name) :: arguments.map (·, .argument)
  | argument title value => title.toList.map (·, .name) ++ [(value, .value)]
  | literalExpression value => [(value, .literal)]
  | newArray type length => [(type, .type), (length, .value)]
  | newStruct type => [(type, .type)]

theorem map_fst_slots (form : Form) : form.slots.map (·.1) = form.children := by
  cases form <;> simp [slots, children, Function.comp_def]

end Form

open Binding in
/-- Whether a phrase can stand in a place. -/
def Role.admits : Role → Form → Bool
  | .scriptHeader, form => (form matches .scriptHeader ..)
  | .importLine, form => isImport form
  | .definition, form => isDefinition form
  | .name, form => (form matches .identifier _)
  | .type, form => (form matches .typeName ..)
  | .eventHeader, form => (form matches .eventHeader ..)
  | .functionHeader, form => (form matches .functionHeader ..)
  | .parameterList, form => (form matches .parameterList _)
  | .parameter, form => isParameter form
  | .groupProperty, form => isProperty form
  | .stateDefinition, form => isBody form
  | .accessor, form => (form matches .function ..)
  | .structMember, form => isVariable form
  | .statement, form => form.isStatement
  | .branch, form => (form matches .ifBranch ..)
  | .value, form => form.isValue
  | .argument, form => (form matches .argument ..)
  | .literal, form => (form matches .literal _)

/-- Whether nothing is declared in a place. -/
def Role.isInner : Role → Bool
  | .name | .type | .value | .argument | .literal => true
  | _ => false

namespace Tree

variable {t : Tree} {x p root : NodeId} {form : Form}

/-- Every part of a node is one that the phrase has in its place. -/
def Grammatical (t : Tree) : Prop :=
  ∀ id node, t.node? id = some node → ∀ slot ∈ node.form.slots, t.isWanted slot.2.admits slot.1

/-- Whether every part fits its place. -/
def isGrammatical (t : Tree) : Bool :=
  t.nodes.all fun node => node.form.slots.all fun slot => t.isWanted slot.2.admits slot.1

theorem isGrammatical_iff : t.isGrammatical ↔ t.Grammatical := by
  rw [Grammatical, forall_node?_iff, isGrammatical, Array.all_eq_true]
  simp only [List.all_eq_true]
  exact ⟨fun h i => h i i.2, fun h i hi => h ⟨i, hi⟩⟩

instance : Decidable t.Grammatical := decidable_of_iff (t.isGrammatical = true) isGrammatical_iff

theorem Grammatical.part (h : t.Grammatical) (hp : t.formAt p = some form) {role : Role}
    (slot : (x, role) ∈ form.slots) : ∃ inner, t.formAt x = some inner ∧ role.admits inner := by
  obtain ⟨n, hn, rfl⟩ := Option.map_eq_some_iff.1 hp
  exact Binding.isWanted_iff.1 (h p n hn _ slot)

/-- A node fits its place in the node that it is a part of. -/
theorem Grammatical.exists_slot (h : t.Grammatical) (grown : t.Grown)
    (hp : t.parentAt x = some p) : ∃ form above role, t.formAt x = some form ∧
      t.formAt p = some above ∧ (x, role) ∈ above.slots ∧ role.admits form = true := by
  obtain ⟨n, hn, parent⟩ := Option.bind_eq_some_iff.1 hp
  obtain ⟨-, above, ha, part⟩ := grown.parent hn parent
  rw [← Form.map_fst_slots] at part
  obtain ⟨⟨_, role⟩, slot, rfl⟩ := List.mem_map.1 part
  have admitted := h p above ha _ slot
  rw [isWanted, hn] at admitted
  exact ⟨n.form, above.form, role, formAt_eq hn, formAt_eq ha, slot, admitted⟩

end Tree

namespace Form

/-- Whether a phrase can be around a declaration, or is one. -/
def isOutline : Form → Bool
  | script .. | scriptHeader .. | customEvent _ | event .. | eventHeader .. | function ..
  | functionHeader .. | parameterList _ | parameter .. | group .. | property .. | state ..
  | struct .. | variableDefinition .. | declaration .. | ifChain _
  | ifBranch .. | whileLoop .. => true
  | _ => false

/-- Whether a phrase declares something other than a script, in the place where it stands. -/
def isDeclaring : Form → Bool
  | function .. | event .. | variableDefinition .. | declaration .. | parameter .. | property ..
  | group .. | state .. | struct .. | customEvent _ => true
  | _ => false

/-- The statements of a phrase that has a block of them. -/
def block? : Form → Option (List NodeId)
  | function _ statements | event _ statements | ifBranch _ statements | whileLoop _ statements =>
    some statements
  | _ => none

theorem mem_children_of_block {form : Form} {statements : List NodeId} {s : NodeId}
    (block : form.block? = some statements) (hs : s ∈ statements) : s ∈ form.children := by
  cases form <;> simp only [block?, Option.some.injEq, reduceCtorEq] at block <;>
    simp [children, block, hs]

/-- Other phrases have places for names, types and values only. -/
theorem isInner_of_slot {above : Form} (other : above.isOutline = false) :
    ∀ slot ∈ above.slots, slot.2.isInner := by
  rintro ⟨x, role⟩ slot
  cases above <;> simp only [isOutline, Bool.true_eq_false] at other <;>
    grind [slots, Role.isInner]

end Form

/-- What a phrase looks like that has a part in some place, if something can be declared there. -/
def Role.Holds (role : Role) (above : Form) (x : NodeId) : Prop :=
  match role with
  | .definition => ∃ header imports definitions,
      above = .script header imports definitions ∧ x ∈ definitions
  | .eventHeader => ∃ statements, above = .event x statements
  | .functionHeader => ∃ statements, above = .function x statements
  | .parameterList => (∃ title, above = .eventHeader title x) ∨
      ∃ returnType title modifiers, above = .functionHeader returnType title x modifiers
  | .parameter => ∃ parameters, above = .parameterList parameters ∧ x ∈ parameters
  | .groupProperty => ∃ title modifiers properties,
      above = .group title modifiers properties ∧ x ∈ properties
  | .stateDefinition => ∃ title isAuto definitions,
      above = .state title isAuto definitions ∧ x ∈ definitions
  | .accessor => ∃ type title initial functions modifiers,
      above = .property type title initial functions modifiers ∧ x ∈ functions
  | .structMember => ∃ title members, above = .struct title members ∧ x ∈ members
  | .statement => ∃ statements, above.block? = some statements ∧ x ∈ statements
  | .branch => ∃ branches, above = .ifChain branches ∧ x ∈ branches
  | _ => True

theorem Form.holds_of_slot {above : Form} {x : NodeId} {role : Role}
    (slot : (x, role) ∈ above.slots) : role.Holds above x := by
  cases above <;> simp only [slots, List.mem_cons, List.mem_append, List.mem_map, Prod.mk.injEq,
    List.not_mem_nil, or_false, or_assoc] at slot
  all_goals grind [Role.Holds, block?]

theorem Role.not_outline_of_inner {role : Role} {form : Form} (inner : role.isInner)
    (admitted : role.admits form) : form.isOutline = false := by
  cases role <;> simp only [isInner, Bool.false_eq_true] at inner <;>
    cases form <;> first | rfl | cases admitted

namespace Tree

variable {t : Tree} {x p a root : NodeId} {form : Form}

theorem Grown.exists_parent (grown : t.Grown) (within : t.Within x root) (ne : root ≠ x) :
    ∃ p, t.parentAt x = some p ∧ t.Within p root := by
  cases hp : t.parentAt x with
  | none => exact absurd ((within_of_no_parent hp).1 within).2 ne
  | some p => exact ⟨p, rfl, ((grown.within_of_parentAt hp).1 within).resolve_left ne⟩

section Places

variable (h : t.Grammatical) (grown : t.Grown)

include h grown

/-- The node around a node has a place that admits it. -/
theorem Grammatical.exists_role (hx : t.formAt x = some form) (hp : t.parentAt x = some p) :
    ∃ (above : Form) (role : Role), t.formAt p = some above ∧ role.admits form = true ∧
      role.Holds above x := by
  obtain ⟨_, above, role, hx', ha, slot, admitted⟩ := h.exists_slot grown hp
  cases hx.symm.trans hx'
  exact ⟨above, role, ha, admitted, Form.holds_of_slot slot⟩

/-- What can be around a declaration lies in nothing else. -/
theorem Grammatical.outline_of_parent (hx : t.isWanted Form.isOutline x)
    (hp : t.parentAt x = some p) : t.isWanted Form.isOutline p := by
  obtain ⟨form, above, role, hform, ha, slot, admitted⟩ := h.exists_slot grown hp
  rw [Binding.isWanted_of_formAt hform] at hx
  rw [Binding.isWanted_of_formAt ha]
  refine Bool.of_not_eq_false fun other => ?_
  have inner := Form.isInner_of_slot other _ slot
  cases hx.symm.trans (Role.not_outline_of_inner inner admitted)

theorem Grammatical.outline_around (hx : t.isWanted Form.isOutline x) (around : t.Within x a) :
    t.isWanted Form.isOutline a := by
  induction x using grown.inward with
  | step x ih =>
    cases hp : t.parentAt x with
    | none =>
      obtain ⟨-, rfl⟩ := (within_of_no_parent hp).1 around
      exact hx
    | some p =>
      rcases (grown.within_of_parentAt hp).1 around with rfl | outside
      · exact hx
      · exact ih p hp (h.outline_of_parent grown hx hp) outside

theorem Grammatical.parentAt_script (hroot : t.isWanted Form.isScript root) :
    t.parentAt root = none := by
  obtain ⟨form, hform, isScript⟩ := Binding.isWanted_iff.1 hroot
  refine Option.eq_none_iff_forall_ne_some.2 fun p hp => ?_
  obtain ⟨above, role, -, admitted, -⟩ := h.exists_role grown hform hp
  cases form <;> simp only [Form.isScript, Bool.false_eq_true] at isScript
  cases role <;> cases admitted

theorem Grammatical.scriptsOnTop : t.ScriptsOnTop := by
  intro id node hn isScript
  rw [← parentAt_eq hn]
  exact h.parentAt_script grown ((Binding.isWanted_of_formAt (formAt_eq hn) _).trans isScript)

/-- What lies in a script lies in no other, and the script is the outermost node around it. -/
theorem Grammatical.eq_of_script (hroot : t.isWanted Form.isScript root) (within : t.Within x root)
    (ha : t.isWanted Form.isScript a) (around : t.Within x a) : a = root := by
  rcases around.linear grown within with inside | inside
  · exact ((within_of_no_parent (h.parentAt_script grown ha)).1 inside).2.symm
  · exact ((within_of_no_parent (h.parentAt_script grown hroot)).1 inside).2

theorem Grammatical.shielded : t.Shielded := by
  refine (h.scriptsOnTop grown).shielded fun id node hn isStruct around hr a ha above habove => ?_
  have outline : t.isWanted Form.isOutline id := by
    rw [Binding.isWanted_of_formAt (formAt_eq hn)]
    cases hf : node.form <;> rw [hf] at isStruct <;> first | rfl | cases isStruct
  cases (ancestors_eq (formAt_eq hn)).symm.trans hr
  have wanted := h.outline_around grown outline (within_iff.2 ⟨has_of_node? hn, .inr ha⟩)
  rw [Binding.isWanted_of_formAt (formAt_eq habove)] at wanted
  cases hf : above.form <;> rw [hf] at wanted <;> simp_all [Form.isMemberAccess, Form.isOutline]

end Places

end Tree

end PapyrusAnalysis
