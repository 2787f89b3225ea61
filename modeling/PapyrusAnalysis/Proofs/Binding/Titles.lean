import PapyrusAnalysis.Proofs.Binding.Complete
import PapyrusAnalysis.Proofs.Builder.Limits

/-!
# Where declarations stand

In a grammatical tree, what a script declares is a member of the script or has its name kept by the
innermost container around it. A container keeps names of one kind. Around the identifier of a
declaration there is nothing but declarations and what holds them, so that the identifier is a
member of nothing and only its own limit counts.

## Main definitions

* `Form.keptKind?`: what a container keeps the names of.
* `Binding.limitOf`: the limit on the name of a declaration.
* `Binding.Titled`: what is known about the identifier of a declaration.
-/

namespace PapyrusAnalysis

namespace Tree

variable {t : Tree} {wanted : Form → Bool} {x a b : NodeId}

theorem Innermost.within (innermost : t.Innermost wanted x a) (grown : t.Grown) :
    t.Within x a := by
  induction innermost with
  | parent above =>
    exact (grown.within_of_parentAt above).2 (.inr (.refl (grown.has_of_parentAt above).2.1))
  | outer above _ _ _ ih => exact (grown.within_of_parentAt above).2 (.inr ih)

theorem Innermost.isWanted (innermost : t.Innermost wanted x a) : t.isWanted wanted a := by
  induction innermost with
  | parent _ hform holds => exact (Binding.isWanted_of_formAt hform _).trans holds
  | outer _ _ _ _ ih => exact ih

/-- What is wanted around a node is the node itself or around the innermost one that is wanted. -/
theorem Innermost.within_of_wanted (innermost : t.Innermost wanted x a) (grown : t.Grown)
    (around : t.Within x b) (hb : t.isWanted wanted b) : b = x ∨ t.Within a b := by
  induction innermost with
  | parent above => exact (grown.within_of_parentAt above).1 around
  | outer above hform fails _ ih =>
    rcases (grown.within_of_parentAt above).1 around with rfl | outside
    · exact .inl rfl
    · rcases ih outside with rfl | outside
      · cases fails.symm.trans ((Binding.isWanted_of_formAt hform _).symm.trans hb)
      · exact .inr outside

theorem Innermost.unique (innermost : t.Innermost wanted x a) (grown : t.Grown)
    (other : t.Innermost wanted x b) : a = b :=
  Option.some.inj ((grown.innermost_iff.1 innermost).symm.trans (grown.innermost_iff.1 other))

/-- If something that is wanted is around a node, then some node is the innermost one. -/
theorem Grown.exists_innermost (grown : t.Grown) (around : t.Within x b) (ne : b ≠ x)
    (hb : t.isWanted wanted b) : ∃ a, t.Innermost wanted x a := by
  induction x using grown.inward with
  | step x ih =>
    obtain ⟨p, hp, outside⟩ := grown.exists_parent around ne
    obtain ⟨n, hn⟩ := (grown.has_of_parentAt hp).2.1.node?
    cases holds : wanted n.form with
    | true => exact ⟨p, .parent hp (formAt_eq hn) holds⟩
    | false =>
      have ne' : b ≠ p := by
        rintro rfl
        cases holds.symm.trans ((Binding.isWanted_of_formAt (formAt_eq hn) _).symm.trans hb)
      obtain ⟨a, innermost⟩ := ih p hp outside ne'
      exact ⟨a, .outer hp (formAt_eq hn) holds innermost⟩

end Tree

/-- What a container keeps the names of, if these are not members of a script as well. -/
def Form.keptKind? : Form → Option MemberKind
  | struct .. | function .. | event .. | ifBranch .. | whileLoop .. => some .var
  | property .. => some .function
  | _ => none

namespace Binding

variable {t : Tree} {x p root container identifier : NodeId} {form : Form} {kind : SymbolKind}

/-! ## Keepers -/

theorem isDeclaring_of_declaration? (hd : t.declaration? x = some (kind, identifier))
    (notScript : kind ≠ .script) (notImport : kind ≠ .importLine) :
    ∃ form, t.formAt x = some form ∧ form.isDeclaring := by
  obtain ⟨n, hn⟩ := Tree.node?_of_declaration? hd
  refine ⟨n.form, Tree.formAt_eq hn, ?_⟩
  rw [Tree.declaration?, Tree.formAt_eq hn] at hd
  cases hf : n.form <;> simp only [hf] at hd <;> first | rfl | grind

/-- A function or event keeps the names of its parameters. -/
theorem Body.innermost {f list : NodeId} {statements parameters : List NodeId}
    (body : Body t f list statements) (wf : t.WellFormed)
    (hl : t.formAt list = some (.parameterList parameters)) (hm : x ∈ parameters) :
    t.Innermost (keeps .locals) x f := by
  obtain ⟨l, hn, hform⟩ := Option.map_eq_some_iff.1 hl
  have first : t.parentAt x = some list := wf.parentAt hn (by rw [hform]; exact hm)
  cases body with
  | @function header title returnType modifiers hf hg =>
    obtain ⟨g, hg', form⟩ := Option.map_eq_some_iff.1 hg
    obtain ⟨n, hn', form'⟩ := Option.map_eq_some_iff.1 hf
    have second : t.parentAt list = some header :=
      wf.parentAt hg' (by simp [form, Form.children])
    have third : t.parentAt header = some f := wf.parentAt hn' (by simp [form', Form.children])
    exact .outer first hl rfl (.outer second hg rfl (.parent third hf rfl))
  | @event header title hf hg =>
    obtain ⟨g, hg', form⟩ := Option.map_eq_some_iff.1 hg
    obtain ⟨n, hn', form'⟩ := Option.map_eq_some_iff.1 hf
    have second : t.parentAt list = some header :=
      wf.parentAt hg' (by simp [form, Form.children])
    have third : t.parentAt header = some f := wf.parentAt hn' (by simp [form', Form.children])
    exact .outer first hl rfl (.outer second hg rfl (.parent third hf rfl))

theorem keeps_of_block {statements : List NodeId} (block : form.block? = some statements) :
    keeps .locals form := by
  cases form <;> simp only [Form.block?, reduceCtorEq] at block <;> rfl

theorem keptKind_of_block {statements : List NodeId} (block : form.block? = some statements) :
    form.keptKind? = some .var := by
  cases form <;> simp only [Form.block?, reduceCtorEq] at block <;> rfl

/-- Containers keep what has its name in the table of local names. -/
theorem tableOf_of_keptKind {of : MemberKind} (kept : form.keptKind? = some of)
    (same : kind.memberKind? = some of) : tableOf kind = some .locals := by
  cases form <;> simp only [Form.keptKind?, reduceCtorEq] at kept <;> cases kept <;>
    cases kind <;> first | rfl | cases same

/-- A node becomes a member of a script, if it gets a symbol. -/
def MemberOf (t : Tree) (root x : NodeId) : Prop :=
  ∃ header imports definitions, t.formAt root = some (.script header imports definitions) ∧
    x ∈ memberNodes t definitions

/-- A name is not kept by a container that does so for names of one kind only. -/
def Unkept (t : Tree) (x : NodeId) : Prop :=
  ∀ {container above}, t.Innermost (keeps .locals) x container → t.formAt container = some above →
    above.keptKind? = none

/-- What does not stand right in a container is kept by what is around its parent. -/
theorem unkept_of_bare (hp : t.parentAt x = some p) (hf : t.formAt p = some form)
    (bare : keeps .locals form = false) (outside : Unkept t p) : Unkept t x := by
  intro container above innermost hc
  cases innermost with
  | parent above hform holds =>
    cases hp.symm.trans above
    cases hf.symm.trans hform
    cases bare.symm.trans holds
  | outer above _ _ rest =>
    cases hp.symm.trans above
    exact outside rest hc

/-- No container keeps the name of what stands right in a script. -/
theorem not_innermost_of_top (h : t.Grammatical) (grown : t.Grown)
    (hroot : t.isWanted Form.isScript root) (hp : t.parentAt x = some root) :
    ¬ t.Innermost (keeps .locals) x container := by
  intro innermost
  have alone := h.parentAt_script grown hroot
  cases innermost with
  | @parent _ _ form above hform holds =>
    cases hp.symm.trans above
    rw [isWanted_of_formAt hform] at hroot
    rw [keeps, hroot, Bool.not_true, Bool.and_false] at holds
    cases holds
  | outer above _ _ rest =>
    cases hp.symm.trans above
    cases rest with
    | parent above' => cases alone.symm.trans above'
    | outer above' => cases alone.symm.trans above'

section Around

variable (h : t.Grammatical) (wf : t.WellFormed) (hroot : t.isWanted Form.isScript root)
  (within : t.Within x root)

include h wf hroot within

/-- What can stand among the definitions of a script only, does. -/
theorem mem_definitions (hx : t.formAt x = some form) (plain : form.isScript = false)
    (only : ∀ role : Role, role.admits form → role = .definition) :
    ∃ header imports definitions, t.formAt root = some (.script header imports definitions) ∧
      t.parentAt x = some root ∧ x ∈ definitions := by
  obtain ⟨p, above, role, hp, inside, ha, admitted, holds⟩ :=
    exists_role_of_within h wf.grown hroot within hx plain
  obtain rfl := only role admitted
  obtain ⟨header, imports, definitions, rfl, hm⟩ := holds
  obtain rfl := h.eq_of_script wf.grown hroot inside (isWanted_of_formAt ha _)
    (.refl (Tree.has_of_formAt ha))
  exact ⟨header, imports, definitions, ha, hp, hm⟩

theorem role_of_group {title : NodeId} {modifiers : FlagSet Modifier} {properties : List NodeId}
    (hx : t.formAt x = some (.group title modifiers properties)) :
    ∃ header imports definitions, t.formAt root = some (.script header imports definitions) ∧
      t.parentAt x = some root ∧ x ∈ definitions :=
  mem_definitions h wf hroot within hx rfl fun role admitted => by
    cases role <;> first | rfl | cases admitted

theorem role_of_state {title : NodeId} {isAuto : Bool} {definitions : List NodeId}
    (hx : t.formAt x = some (.state title isAuto definitions)) :
    ∃ header imports definitions, t.formAt root = some (.script header imports definitions) ∧
      t.parentAt x = some root ∧ x ∈ definitions :=
  mem_definitions h wf hroot within hx rfl fun role admitted => by
    cases role <;> first | rfl | cases admitted

/-- What a script declares is a member of the script, or a container keeps names of its kind. -/
theorem member_or_kept (hd : t.declaration? x = some (kind, identifier))
    (notScript : kind ≠ .script) (notImport : kind ≠ .importLine) :
    MemberOf t root x ∧ kind ≠ .parameter ∧ Unkept t x ∨ ∃ container above of,
      t.Innermost (keeps .locals) x container ∧ t.formAt container = some above ∧
        above.keptKind? = some of ∧ kind.memberKind? = some of := by
  obtain ⟨form, hx, declaring⟩ := isDeclaring_of_declaration? hd notScript notImport
  have plain : form.isScript = false := by cases form <;> first | rfl | cases declaring
  obtain ⟨p, above, role, hp, inside, ha, admitted, holds⟩ :=
    exists_role_of_within h wf.grown hroot within hx plain
  rw [Tree.declaration?, hx] at hd
  have isMember (hm : MemberOf t root x) (other : isParameter form = false) (free : Unkept t x) :
      MemberOf t root x ∧ kind ≠ .parameter ∧ Unkept t x := by
    refine ⟨hm, ?_, free⟩
    rintro rfl
    cases form <;> grind [isParameter]
  cases role with
  | definition =>
    obtain ⟨header, imports, definitions, rfl, hm⟩ := holds
    obtain rfl := h.eq_of_script wf.grown hroot inside (isWanted_of_formAt ha _)
      (.refl (Tree.has_of_formAt ha))
    refine .inl (isMember ⟨header, imports, definitions, ha, by simp [memberNodes, hm]⟩ ?_ ?_)
    · cases form <;> first | rfl | cases admitted
    · exact fun innermost => absurd innermost (not_innermost_of_top h wf.grown hroot hp)
  | groupProperty =>
    obtain ⟨title, modifiers, properties, rfl, hm⟩ := holds
    obtain ⟨header, imports, definitions, hr, top, hd⟩ := role_of_group h wf hroot inside ha
    refine .inl (isMember ⟨header, imports, definitions, hr, ?_⟩ ?_ ?_)
    · simp only [memberNodes, List.mem_append, List.mem_flatMap]
      exact .inl (.inr ⟨p, hd, by simp [groupProperties, ha, hm]⟩)
    · cases form <;> first | rfl | cases admitted
    · exact unkept_of_bare hp ha rfl fun outer =>
        absurd outer (not_innermost_of_top h wf.grown hroot top)
  | stateDefinition =>
    obtain ⟨title, isAuto, parts, rfl, hm⟩ := holds
    obtain ⟨header, imports, definitions, hr, -, hd⟩ := role_of_state h wf hroot inside ha
    refine .inl (isMember ⟨header, imports, definitions, hr, ?_⟩ ?_ ?_)
    · simp only [memberNodes, List.mem_append, List.mem_flatMap]
      exact .inr ⟨p, hd, by simp [stateDefinitions, ha, hm]⟩
    · cases form <;> first | rfl | cases admitted
    · intro container phrase innermost hc
      cases innermost.unique wf.grown (.parent hp ha rfl)
      cases ha.symm.trans hc
      rfl
  | accessor =>
    obtain ⟨type, title, initial, functions, modifiers, rfl, -⟩ := holds
    refine .inr ⟨p, _, _, .parent hp ha rfl, ha, rfl, ?_⟩
    cases form <;> simp only [Role.admits, Bool.false_eq_true] at admitted
    grind [SymbolKind.memberKind?]
  | structMember =>
    obtain ⟨title, members, rfl, -⟩ := holds
    refine .inr ⟨p, _, _, .parent hp ha rfl, ha, rfl, ?_⟩
    cases form <;> simp only [Role.admits, isVariable, Bool.false_eq_true] at admitted
    grind [SymbolKind.memberKind?]
  | statement =>
    obtain ⟨statements, block, -⟩ := holds
    refine .inr ⟨p, _, _, .parent hp ha (keeps_of_block block), ha, keptKind_of_block block, ?_⟩
    cases form <;> simp only [Form.isDeclaring, Bool.false_eq_true] at declaring <;>
      simp only [Role.admits, Form.isStatement, Bool.false_eq_true] at admitted
    grind [SymbolKind.memberKind?]
  | parameter =>
    obtain ⟨f, list, statements, parameters, body, -, hl, hm⟩ :=
      exists_body_of_parameter h wf.grown hroot within hx admitted
    obtain ⟨above, hf, -, block⟩ := body.exists_form
    refine .inr ⟨f, _, _, body.innermost wf hl hm, hf, keptKind_of_block block, ?_⟩
    cases form <;> simp only [Role.admits, isParameter, Bool.false_eq_true] at admitted
    grind [SymbolKind.memberKind?]
  | _ =>
    cases form <;> simp only [Form.isDeclaring, Bool.false_eq_true] at declaring <;> cases admitted

/-- A container keeps the names of one kind of declarations. -/
theorem memberKind_of_innermost {above : Form} {of : MemberKind}
    (hd : t.declaration? x = some (kind, identifier)) (notScript : kind ≠ .script)
    (notImport : kind ≠ .importLine) (innermost : t.Innermost (keeps .locals) x container)
    (hc : t.formAt container = some above) (kept : above.keptKind? = some of) :
    kind.memberKind? = some of := by
  rcases member_or_kept h wf hroot within hd notScript notImport with
    ⟨-, -, free⟩ | ⟨keeper, phrase, ofKeeper, known, hk, keptKind, same⟩
  · cases kept.symm.trans (free innermost hc)
  · cases known.unique wf.grown innermost
    cases hc.symm.trans hk
    cases kept.symm.trans keptKind
    exact same

end Around

/-! ## Identifiers -/

/-- The limit on the name of a declaration. -/
def limitOf : SymbolKind → Option (FlagSet MemberKind)
  | .function => some {.function}
  | .property => some {.property}
  | _ => none

/-- What is known about the identifier of a declaration: it is a part of the declaration or of its
header. -/
structure Titled (t : Tree) (kind : SymbolKind) (x identifier : NodeId) : Prop where
  named : t.formAt identifier = some (.identifier (t.nameAt identifier))
  holder : ∃ q phrase, t.parentAt identifier = some q ∧ t.formAt q = some phrase ∧
    phrase.isOutline ∧ (q = x ∨ t.parentAt q = some x ∧ keeps .locals phrase = false) ∧
    (kind ≠ .group → kind ≠ .state → phrase.nameLimit? = some (identifier, limitOf kind)) ∧
    (kind = .group ∨ kind = .state → Check.isLabel identifier (some phrase))

theorem nameOf_identifier {name : String} (hf : t.formAt x = some (.identifier name)) :
    t.nameOf x = .ok (some name) := by
  obtain ⟨n, hn, hform⟩ := Option.map_eq_some_iff.1 hf
  rw [Tree.nameOf, Tree.nameWithin, Tree.form_eq_ok hn, hform]
  rfl

theorem parentAt_of_child (wf : t.WellFormed) (hp : t.formAt p = some form)
    (hm : x ∈ form.children) : t.parentAt x = some p := by
  obtain ⟨n, hn, rfl⟩ := Option.map_eq_some_iff.1 hp
  exact wf.parentAt hn hm

theorem titled (h : t.Grammatical) (wf : t.WellFormed)
    (hd : t.declaration? x = some (kind, identifier)) (notImport : kind ≠ .importLine) :
    Titled t kind x identifier := by
  have ofHolder {q : NodeId} {phrase : Form} (hq : t.formAt q = some phrase)
      (slot : (identifier, Role.name) ∈ phrase.slots) (outline : phrase.isOutline)
      (place : q = x ∨ t.parentAt q = some x ∧ keeps .locals phrase = false)
      (limit : kind ≠ .group → kind ≠ .state →
        phrase.nameLimit? = some (identifier, limitOf kind))
      (label : kind = .group ∨ kind = .state → Check.isLabel identifier (some phrase)) :
      Titled t kind x identifier := by
    obtain ⟨inner, hi, admitted⟩ := h.part hq slot
    cases inner <;> simp only [Role.admits, Bool.false_eq_true] at admitted
    have part : identifier ∈ phrase.children := by
      rw [← Form.map_fst_slots]
      exact List.mem_map.2 ⟨_, slot, rfl⟩
    refine ⟨?_, q, phrase, parentAt_of_child wf hq part, hq, outline, place, limit, label⟩
    rw [hi, Tree.nameAt_eq (nameOf_identifier hi)]
    rfl
  unfold Tree.declaration? at hd
  split at hd
  case h_1 hf | h_2 hf | h_3 hf =>
    split at hd
    · rename_i hg
      cases hd
      have parent := parentAt_of_child wf hf List.mem_cons_self
      exact ofHolder hg (by simp [Form.slots]) rfl (.inr ⟨parent, rfl⟩) (fun _ _ => rfl) (by simp)
    · cases hd
  all_goals first | cases hd; done | skip
  all_goals
    rename_i hf
    cases hd
    first
    | exact absurd rfl notImport
    | exact ofHolder hf (by simp [Form.slots]) rfl (.inl rfl) (by simp [Form.nameLimit?, limitOf])
        (by simp [Check.isLabel])

/-! ## Around identifiers -/

section Around

variable {a : NodeId} {above : Form} (h : t.Grammatical)

include h

/-- Only values are assigned to. -/
theorem isValue_of_assigned (assigned : t.Assigned x) : t.isWanted Form.isValue x := by
  obtain ⟨a, operator, right, ha⟩ := assigned
  have slot : (x, Role.value) ∈ (Form.assignment (some x) operator right).slots := by
    simp [Form.slots]
  obtain ⟨inner, hi, admitted⟩ := h.part ha slot
  exact (isWanted_of_formAt hi _).trans admitted

/-- What can be around a declaration sets no limit. -/
theorem scopeAt_of_outline (limited : t.Limited) (outline : t.isWanted Form.isOutline x) :
    t.scopeAt x = none := by
  obtain ⟨form, hf, isOutline⟩ := isWanted_iff.1 outline
  by_contra limit
  rcases limited.others hf limit with isName | assigned
  · cases form <;> simp only [Form.isName, Bool.false_eq_true] at isName <;> cases isOutline
  · have isValue := isValue_of_assigned h assigned
    rw [isWanted_of_formAt hf] at isValue
    cases form <;> simp only [Form.isValue, Bool.false_eq_true] at isValue <;> cases isOutline

/-- Definitions do not lie in blocks of statements, though they can have one. -/
theorem block_around (grown : t.Grown) (hx : t.formAt x = some form) (defines : isDefinition form)
    (around : t.Within x a) (ha : t.formAt a = some above) : a = x ∨ above.block? = none := by
  induction x using grown.inward generalizing form with
  | step x ih =>
    cases hp : t.parentAt x with
    | none => exact .inl ((Tree.within_of_no_parent hp).1 around).2
    | some p =>
      rcases (grown.within_of_parentAt hp).1 around with rfl | outside
      · exact .inl rfl
      right
      obtain ⟨phrase, role, hq, admitted, holds⟩ := h.exists_role grown hx hp
      have onward (defines : isDefinition phrase) (bare : phrase.block? = none) :
          above.block? = none := by
        rcases ih p hp hq defines outside with rfl | done
        · cases hq.symm.trans ha
          exact bare
        · exact done
      cases role with
      | definition =>
        obtain ⟨header, imports, definitions, rfl, -⟩ := holds
        have top := h.parentAt_script grown (isWanted_of_formAt hq _)
        obtain ⟨-, rfl⟩ := (Tree.within_of_no_parent top).1 outside
        cases hq.symm.trans ha
        rfl
      | groupProperty =>
        obtain ⟨title, modifiers, properties, rfl, -⟩ := holds
        exact onward rfl rfl
      | stateDefinition =>
        obtain ⟨title, isAuto, definitions, rfl, -⟩ := holds
        exact onward rfl rfl
      | accessor =>
        obtain ⟨type, title, initial, functions, modifiers, rfl, -⟩ := holds
        exact onward rfl rfl
      | structMember =>
        obtain ⟨title, members, rfl, -⟩ := holds
        exact onward rfl rfl
      | _ =>
        cases form <;> simp only [isDefinition, Bool.false_eq_true] at defines <;> cases admitted

/-- What keeps the name of a statement is the phrase that it is a statement of. -/
theorem block_of_innermost {type title : NodeId} {initial : Option NodeId} (grown : t.Grown)
    (hx : t.formAt x = some (.declaration type title initial))
    (innermost : t.Innermost (keeps .locals) x a) :
    ∃ above statements, t.formAt a = some above ∧ above.block? = some statements ∧
      x ∈ statements := by
  have inBlock {p : NodeId} {phrase : Form} (hp : t.parentAt x = some p)
      (hq : t.formAt p = some phrase) :
      ∃ statements, phrase.block? = some statements ∧ x ∈ statements := by
    obtain ⟨phrase', role, hq', admitted, holds⟩ := h.exists_role grown hx hp
    cases hq.symm.trans hq'
    cases role <;> first | exact holds | cases admitted
  cases innermost with
  | parent hp hq _ =>
    obtain ⟨statements, block, hm⟩ := inBlock hp hq
    exact ⟨_, statements, hq, block, hm⟩
  | outer hp hq fails _ =>
    obtain ⟨statements, block, -⟩ := inBlock hp hq
    cases fails.symm.trans (keeps_of_block block)

end Around

namespace Titled

variable {a : NodeId} (titled : Titled t kind x identifier)

include titled

theorem isLeaf : t.IsLeaf identifier := ⟨_, titled.named, rfl⟩

theorem within (wf : t.WellFormed) : t.Within identifier x := by
  obtain ⟨q, phrase, parent, -, -, rfl | ⟨above, -⟩, -⟩ := titled.holder
  · exact within_parent wf parent
  · exact (within_parent wf parent).trans wf.grown (within_parent wf above)

/-- A container around the identifier of a declaration is around the declaration, or it is the
declaration. -/
theorem within_of_keeps (wf : t.WellFormed) (inside : t.Within identifier a)
    (hk : t.isWanted (keeps .locals) a) : t.Within x a := by
  obtain ⟨q, phrase, parent, hq, -, place, -⟩ := titled.holder
  rcases (wf.grown.within_of_parentAt parent).1 inside with rfl | inside
  · rw [isWanted_of_formAt titled.named] at hk
    cases hk
  rcases place with rfl | ⟨above, bare⟩
  · exact inside
  rcases (wf.grown.within_of_parentAt above).1 inside with rfl | inside
  · -- The header of a declaration is no container.
    rw [isWanted_of_formAt hq, bare] at hk
    cases hk
  · exact inside

theorem outline_around (h : t.Grammatical) (wf : t.WellFormed) (inside : t.Within identifier a) :
    a = identifier ∨ t.isWanted Form.isOutline a := by
  obtain ⟨q, phrase, parent, hq, outline, -⟩ := titled.holder
  refine ((wf.grown.within_of_parentAt parent).1 inside).imp_right fun inside => ?_
  exact h.outline_around wf.grown ((isWanted_of_formAt hq _).trans outline) inside

/-- The kinds of members that the name of a declaration may refer to. -/
theorem memberKindsAt (h : t.Grammatical) (wf : t.WellFormed) (limited : t.Limited)
    (notGroup : kind ≠ .group) (notState : kind ≠ .state) :
    t.memberKindsAt identifier = .ok ((limitOf kind).getD MemberKind.anywhere) := by
  obtain ⟨q, phrase, -, hq, -, -, limit, -⟩ := titled.holder
  have own : t.scopeAt identifier = limitOf kind := by
    refine (limited.names hq (limit notGroup notState)).2.resolve_right fun assigned => ?_
    have isValue := isValue_of_assigned h assigned
    rw [isWanted_of_formAt titled.named] at isValue
    cases isValue
  have outside : (t.outward identifier).findSome? t.scopeAt = none := by
    refine List.findSome?_eq_none_iff.2 fun a ha => ?_
    have inside : t.Within identifier a :=
      Tree.within_iff.2 ⟨Tree.has_of_formAt titled.named, .inr ha⟩
    refine scopeAt_of_outline h limited ((titled.outline_around h wf inside).resolve_left ?_)
    exact fun same => wf.grown.ne_of_mem_outward ha same.symm
  have all : (identifier :: t.outward identifier).findSome? t.scopeAt = limitOf kind := by
    rw [List.findSome?_cons, own, outside]
    cases limitOf kind <;> rfl
  rw [Tree.memberKindsAt, Tree.lineage_eq titled.named]
  change Except.ok (((identifier :: t.outward identifier).findSome? t.scopeAt).getD _) = _
  rw [all]

end Titled

end Binding

end PapyrusAnalysis
