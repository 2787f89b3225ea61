import PapyrusAnalysis.Proofs.Binding.Steps

/-!
# What the steps of binding answer

Every step of binding makes the symbols of the nodes that are listed for it and no others, and what
it answers is the symbol of the node that it was asked for. One theorem for each step says all that
is known of it: where it leads, with which faults it can end, and that it does the same whatever was
reported before. It holds in every setting, so it gives the invariants that binding keeps, the
symbols that it furnishes and, for a tree whose nodes come after their parts, that binding ends
well.

## Main definitions

* `Binding.Answer`: what a step of binding makes and answers.
* `Binding.Settled`: what is so when a declaration is done.
* `Binding.Scripted`: what binding a script does.
* `Binding.TreeBound`: what binding a tree comes to.

## Main statements

* `Binding.binds_script`: what there is to know about binding a script.
* `Binding.Steps.treeBound`: what binding a tree comes to, with an invariant that it keeps.
* `Binding.sound_of_ofTree`: the symbols of a tree that can be bound are sound.
-/

namespace PapyrusAnalysis

namespace Binding

variable {t : Tree} {w : Setting} {b b₁ b' : Binding} {node identifier : NodeId}
  {kind : SymbolKind} {parent id : SymbolId} {made rest : List NodeId}

/-! ## Declarations -/

/-- A step makes the symbols of some nodes. If the node that it is about is wanted, then it answers
with the new symbol of the node. -/
structure Answer (t : Tree) (b : Binding) (above : Option SymbolId) (node : NodeId) (wanted : Bool)
    (made : List NodeId) (answer : Option SymbolId) (b' : Binding) : Prop extends
    Declares t b made b' where
  isSome_eq : answer.isSome = wanted
  some : ∀ id, answer = some id → b.symbols.get? id = none ∧ DeclaredUnder b'.symbols above id node
  /-- What becomes a member is not the statement of a body. -/
  bare : wanted = true → t.isWanted isDeclaration node = false

/-- A step that makes nothing has no answer. -/
theorem answer_none {above : Option SymbolId} {wanted : Bool} (unwanted : wanted = false)
    (nothing : made = []) : Answer t b above node wanted made none b where
  toDeclares := nothing ▸ .refl
  isSome_eq := by rw [unwanted]; rfl
  some := by simp
  bare h := by simp [unwanted] at h

/-- When a declaration is done its symbol has the members that its parts ask for, and the variables
of its body stand below it. -/
structure Settled (t : Tree) (b : Binding) (id : SymbolId) (node : NodeId) (rest : List NodeId)
    (answer : Option SymbolId) (b' : Binding) : Prop extends Declares t b rest b' where
  answer_eq : answer = some id
  lists : ∀ symbol parts, b'.symbols.get? id = some symbol → ownParts? t node = some parts →
    Lists b'.symbols id symbol.kind symbol.members parts
  locals : hasName t node → ∀ statement ∈ bodyStatements t node, ∀ found,
    t.collect isDeclaration statement = .ok found →
      ∀ inner ∈ found, t.isWanted isDeclaration inner → LocalBelow b'.symbols id inner

/-- Nothing is asked of a declaration that has no members and no body. -/
theorem settled_plain (h : Declares t b rest b') (plain : ownParts? t node = none)
    (bare : bodyStatements t node = []) : Settled t b id node rest (some id) b' where
  toDeclares := h
  answer_eq := rfl
  lists symbol parts _ hp := by cases plain.symm.trans hp
  locals _ statement hs := by simp [bare] at hs

/-- A declaration is followed by steps that may change the new symbol. -/
theorem binds_declaring {α : Type} {above : Option SymbolId} {body : SymbolId × Bool → Binder α}
    {post : α → Binding → Prop} (kept : w.Keeps b)
    (hd : w.tree.declaration? node = some (kind, identifier)) (top : kind = .script ↔ above = none)
    (known : ∀ p, above = some p → b.symbols.owns p)
    (next : ∀ b₁ name, w.Keeps b₁ → w.tree.nameOf identifier = .ok name →
      Makes w.tree kind node (w.tree.nameAt identifier) above b b₁ →
      Binds (w.conduct (· = b.symbols.next)) b₁ (body (b.symbols.next, isNamed w.tree identifier))
        fun a b' => post a b' ∧ ∀ symbol, b'.symbols.get? b.symbols.next = some symbol →
          Furnished w.tree b'.symbols b.symbols.next symbol) :
    Binds w.strictly b (declare w.tree kind node identifier above (tableOf kind) >>= body)
      post := by
  have all := (binds_declare kept hd top known).bind fun made b₁ _ kept₁ holds => by
    obtain ⟨rfl, ⟨name, hname⟩, makes⟩ := holds
    exact next b₁ name kept₁ hname makes
  exact (Setting.close all (SymbolTable.get?_next _) fun _ _ h => h.2).imp fun _ _ _ _ h => h.1

/-- When a declaration that is no script is done, its symbol is furnished. -/
theorem Makes.settle {above : Option SymbolId} {answer : Option SymbolId}
    (makes : Makes t kind node (t.nameAt identifier) above b b₁) (sound : Sound t b.symbols)
    (hd : t.declaration? node = some (kind, identifier)) (below : kind ≠ .script)
    (adds : Adds t (· = b.symbols.next) b₁.symbols b'.symbols)
    (settled : Settled t b₁ b.symbols.next node rest answer b') :
    Declares t b (node :: rest) b' ∧ DeclaredUnder b'.symbols above b.symbols.next node ∧
      ∀ symbol, b'.symbols.get? b.symbols.next = some symbol →
        Furnished t b'.symbols b.symbols.next symbol := by
  obtain ⟨symbol, hs, retains, -⟩ := adds.kept makes.get?_next
  have hnode : symbol.declaration = some node := retains.declaration
  refine ⟨(makes.declares sound).trans settled.toDeclares, ⟨symbol, hs, hnode, retains.parent⟩, ?_⟩
  intro symbol' hs'
  cases hs.symm.trans hs'
  exact furnished_of hnode (by rw [retains.kind]; exact hd)
    (fun parts hp => settled.lists symbol parts hs hp) settled.locals
    (by simp [ownDefinitions_of_kind hd below])

/-- Nothing more is bound of a declaration without a name. -/
theorem Makes.settled {above : Option SymbolId}
    (makes : Makes t kind node (t.nameAt identifier) above b b₁)
    (hd : t.declaration? node = some (kind, identifier)) (unnamed : isNamed t identifier = false) :
    Settled t b₁ b.symbols.next node [] (some b.symbols.next) b₁ where
  toDeclares := .refl
  answer_eq := rfl
  lists symbol parts hs hp := by
    cases makes.get?_next.symm.trans hs
    rw [ownParts?_of_unnamed hd unnamed hp]
    exact ⟨.nil, .nil, by simp [SymbolTable.fresh]⟩
  locals has := by simp [hasName, hd, unnamed] at has

/-- A declaration below another one answers with its symbol. If it has a name, then more can be
written down about it. -/
theorem binds_answering {body : SymbolId × Bool → Binder (Option SymbolId)} (rest : List NodeId)
    (kept : w.Keeps b) (known : b.symbols.owns parent)
    (hd : w.tree.declaration? node = some (kind, identifier)) (below : kind ≠ .script)
    (bare : w.tree.isWanted isDeclaration node = false)
    (hmade : made = node :: if isNamed w.tree identifier then rest else [])
    (unnamed : body (b.symbols.next, false) = pure (some b.symbols.next))
    (named : isNamed w.tree identifier = true → ∀ b₁, w.Keeps b₁ → b₁.symbols.owns b.symbols.next →
      Binds (w.conduct (· = b.symbols.next)) b₁ (body (b.symbols.next, true))
        (Settled w.tree b₁ b.symbols.next node rest)) :
    Binds w.strictly b (declare w.tree kind node identifier (some parent) (tableOf kind) >>= body)
      (Answer w.tree b (some parent) node true made) := by
  refine binds_declaring kept hd (by simp [below]) (by rintro p ⟨⟩; exact known) ?_
  intro b₁ _ kept₁ _ makes
  have done {rest : List NodeId} {answer : Option SymbolId} {b' : Binding}
      (adds : Adds w.tree (· = b.symbols.next) b₁.symbols b'.symbols)
      (settled : Settled w.tree b₁ b.symbols.next node rest answer b') :
      Answer w.tree b (some parent) node true (node :: rest) answer b' ∧
        ∀ symbol, b'.symbols.get? b.symbols.next = some symbol →
          Furnished w.tree b'.symbols b.symbols.next symbol := by
    obtain ⟨declares, under, furnished⟩ := makes.settle kept.sound hd below adds settled
    obtain rfl := settled.answer_eq
    refine ⟨⟨declares, rfl, ?_, fun _ => bare⟩, furnished⟩
    rintro _ ⟨⟩
    exact ⟨SymbolTable.get?_next _, under⟩
  cases hnamed : isNamed w.tree identifier with
  | false =>
    rw [unnamed, hmade, hnamed]
    exact .pure kept₁ (done (.refl _) (makes.settled hd hnamed))
  | true =>
    rw [hmade, hnamed]
    exact (named hnamed b₁ kept₁ (SymbolTable.owns_of_get? makes.get?_next)).imp
      fun answer b' adds _ settled => done adds settled

/-- What is left to do is to write down more about the symbol. -/
theorem binds_plain {f : Symbol → Symbol} (kept : w.Keeps b) (writes : Writes w.tree b.symbols f)
    (plain : ownParts? w.tree node = none) (bare : bodyStatements w.tree node = []) :
    Binds (w.conduct (· = id)) b (change id f >>= fun _ => pure (some id))
      (Settled w.tree b id node []) := by
  refine .bind (binds_change kept rfl writes) ?_
  rintro _ b' - kept' ⟨declares, -⟩
  exact .pure kept' (settled_plain declares plain bare)

/-- Symbols of the parts that are wanted, in their order. -/
structure Listed (t : Tree) (b : Binding) (above : Option SymbolId) (wanted : NodeId → Bool)
    (made : NodeId → List NodeId) (parts : List NodeId) (ids : List SymbolId) (b' : Binding) :
    Prop extends Declares t b (parts.flatMap made) b' where
  under : List.Forall₂ (DeclaredUnder b'.symbols above) ids (parts.filter wanted)
  nodup : ids.Nodup
  fresh : ∀ id ∈ ids, b.symbols.get? id = none
  bare : ∀ part ∈ parts.filter wanted, t.isWanted isDeclaration part = false

theorem Listed.canBeMember {above : Option SymbolId} {wanted : NodeId → Bool}
    {made : NodeId → List NodeId} {parts : List NodeId} {ids : List SymbolId}
    (h : Listed t b above wanted made parts ids b') : ∀ id ∈ ids, CanBeMember t b'.symbols id := by
  intro id hid
  obtain ⟨part, hp, symbol, hs, hd, -⟩ := exists_right_of_mem h.under hid
  exact ⟨symbol, part, hs, hd, h.bare part hp⟩

theorem binds_parts {f : NodeId → Binder (Option SymbolId)} {above : Option SymbolId}
    {wanted : NodeId → Bool} {made : NodeId → List NodeId} {parts : List NodeId} (kept : w.Keeps b)
    (body : ∀ part ∈ parts, ∀ b', Grows (fun _ => False) b.symbols b'.symbols → w.Keeps b' →
      Binds w.strictly b' (f part) (Answer w.tree b' above part (wanted part) (made part))) :
    Binds w.strictly b (parts.filterMapM f) (Listed w.tree b above wanted made parts) := by
  induction parts generalizing b with
  | nil => exact .pure kept ⟨.refl, .nil, .nil, by simp, by simp⟩
  | cons part parts ih =>
    rw [List.filterMapM_cons]
    refine (body part (by simp) b (.refl _) kept).bind fun answer b₁ adds kept₁ first => ?_
    have grows : Grows (fun _ => False) b.symbols b₁.symbols := adds.toGrows
    have others := ih kept₁ fun other ho b' grows' =>
      body other (by simp [ho]) b' (grows.trans grows')
    cases answer with
    | none =>
      have unwanted : wanted part = false := first.isSome_eq.symm
      refine others.imp fun ids b' _ _ listed => ?_
      refine ⟨first.toDeclares.trans listed.toDeclares, ?_, listed.nodup,
        fun id hid => grows.get?_eq_none (listed.fresh id hid), ?_⟩
      · rw [List.filter_cons_of_neg (by simp [unwanted])]
        exact listed.under
      · rw [List.filter_cons_of_neg (by simp [unwanted])]
        exact listed.bare
    | some id =>
      have isWanted : wanted part = true := first.isSome_eq.symm
      obtain ⟨new, declared⟩ := first.some id rfl
      refine others.bind fun ids b' adds' kept' listed => .pure kept' ?_
      -- The symbols that come later are not there yet when the first one is.
      have apart : id ∉ ids := by
        intro hid
        obtain ⟨symbol, hs, -⟩ := declared
        cases hs.symm.trans (listed.fresh id hid)
      refine ⟨first.toDeclares.trans listed.toDeclares, ?_, List.nodup_cons.2 ⟨apart, listed.nodup⟩,
        fun other ho => ?_, ?_⟩
      · rw [List.filter_cons_of_pos isWanted]
        exact .cons (declared.grows (Adds.toGrows adds')) listed.under
      · rcases List.mem_cons.1 ho with rfl | ho
        · exact new
        · exact grows.get?_eq_none (listed.fresh other ho)
      · rw [List.filter_cons_of_pos isWanted]
        exact List.forall_mem_cons.2 ⟨first.bare isWanted, listed.bare⟩

theorem binds_forM {f : NodeId → Binder PUnit} {nodes : List NodeId}
    {Q : NodeId → SymbolTable → Prop} (made : NodeId → List NodeId)
    (mono : ∀ {node symbols symbols'}, Grows (fun _ => False) symbols symbols' →
      Q node symbols → Q node symbols') (kept : w.Keeps b)
    (body : ∀ node ∈ nodes, ∀ b', Grows (fun _ => False) b.symbols b'.symbols → w.Keeps b' →
      Binds w.strictly b' (f node) fun _ b'' =>
        Declares w.tree b' (made node) b'' ∧ Q node b''.symbols) :
    Binds w.strictly b (nodes.forM f) fun _ b' =>
      Declares w.tree b (nodes.flatMap made) b' ∧ ∀ node ∈ nodes, Q node b'.symbols := by
  induction nodes generalizing b with
  | nil => exact .pure kept ⟨.refl, by simp⟩
  | cons node nodes ih =>
    refine .bind (body node (by simp) b (.refl _) kept) ?_
    rintro _ b₁ adds kept₁ ⟨first, here⟩
    have grows : Grows (fun _ => False) b.symbols b₁.symbols := adds.toGrows
    refine (ih kept₁ fun other ho b' grows' =>
      body other (by simp [ho]) b' (grows.trans grows')).imp ?_
    rintro _ b' adds' - ⟨others, there⟩
    exact ⟨first.trans others, List.forall_mem_cons.2 ⟨mono (Adds.toGrows adds') here, there⟩⟩

/-! ## Variables, parameters and functions -/

theorem nodeIf_eq {form : Form} (h : t.form node = .ok form) (wanted : Form → Bool) :
    nodeIf t wanted node = if wanted form then [node] else [] := by
  simp [nodeIf, List.filter_cons, isWanted_eq h]

theorem bears_type {form : Form} {typeName : NodeId} (hform : w.tree.form node = .ok form)
    (hc : typeName ∈ form.children) : w.Bears (typeReference? w.tree typeName) :=
  Setting.bears_of fun descending =>
    typeReference?_eq_ok descending (has_of_form descending hform hc)

theorem binds_variableDefinition (kept : w.Keeps b) (has : w.Bears (w.tree.form node))
    (known : b.symbols.owns parent) :
    Binds w.strictly b (variableDefinition w.tree node parent) (Answer w.tree b (some parent) node
      (w.tree.isWanted isVariable node) (nodeIf w.tree isVariable node)) := by
  refine .lift has fun form hform => ?_
  have hf := formAt_of_form hform
  rw [isWanted_eq hform, nodeIf_eq hform]
  split
  · rename_i typeName identifier initial modifiers
    have hd : w.tree.declaration? node = some (.var, identifier) := by simp [Tree.declaration?, hf]
    refine binds_answering [] kept known hd (by simp) (isWanted_eq hform _)
      (by simp [isVariable]) rfl ?_
    intro _ b₁ kept₁ _
    refine .lift (bears_type hform (by simp [Form.children])) fun valueType _ =>
      binds_plain kept₁ ?_ (by simp [ownParts?, hf]) (by simp [bodyStatements, hf])
    exact ⟨fun _ => ⟨rfl, rfl, rfl, rfl, rfl, rfl, by simp⟩, fun _ _ => .inl, fun _ _ => .inl⟩
  · exact .pure kept (answer_none (by grind [isVariable]) (by grind [isVariable]))

theorem binds_parameter (kept : w.Keeps b) (has : w.Bears (w.tree.form node))
    (known : b.symbols.owns parent) :
    Binds w.strictly b (parameter w.tree parent node) (Answer w.tree b (some parent) node
      (w.tree.isWanted isParameter node) (nodeIf w.tree isParameter node)) := by
  refine .lift has fun form hform => ?_
  have hf := formAt_of_form hform
  rw [isWanted_eq hform, nodeIf_eq hform]
  split
  · rename_i typeName identifier default isOptional
    have hd : w.tree.declaration? node = some (.parameter, identifier) := by
      simp [Tree.declaration?, hf]
    refine binds_answering [] kept known hd (by simp) (isWanted_eq hform _)
      (by simp [isParameter]) rfl ?_
    intro _ b₁ kept₁ _
    refine .lift (bears_type hform (by simp [Form.children])) fun valueType _ => ?_
    have writes (defaultValue : Option Literal) : Writes w.tree b₁.symbols fun s => { s with
        valueType := valueType
        defaultValue := defaultValue
        traits := s.traits ∪ .only .optional isOptional } :=
      ⟨fun _ => ⟨rfl, rfl, rfl, rfl, rfl, rfl, by simp⟩, fun _ _ => .inl, fun _ _ => .inl⟩
    have plain : ownParts? w.tree node = none := by simp [ownParts?, hf]
    have bare : bodyStatements w.tree node = [] := by simp [bodyStatements, hf]
    cases default with
    | none => exact binds_plain kept₁ (writes none) plain bare
    | some default =>
      have hdefault : w.Bears (literal? w.tree default) := Setting.bears_of fun descending =>
        literal?_eq_ok (has_of_form descending hform (by simp [Form.children]))
      exact .lift hdefault fun value _ => binds_plain kept₁ (writes value) plain bare
  · exact .pure kept (answer_none (by grind [isParameter]) (by grind [isParameter]))

theorem binds_importLine (kept : w.Keeps b) (has : w.Bears (w.tree.form node))
    (known : b.symbols.owns parent) :
    Binds w.strictly b (importLine w.tree parent node) (Answer w.tree b (some parent) node
      (w.tree.isWanted isImport node) (nodeIf w.tree isImport node)) := by
  refine .lift has fun form hform => ?_
  have hf := formAt_of_form hform
  rw [isWanted_eq hform, nodeIf_eq hform]
  split
  · rename_i identifier
    have hd : w.tree.declaration? node = some (.importLine, identifier) := by
      simp [Tree.declaration?, hf]
    have hname : w.Bears (w.tree.nameOf identifier) := Setting.bears_of fun descending =>
      Tree.nameOf_eq_ok descending (descending.has_identifier hd)
    refine binds_answering [] kept known hd (by simp) (isWanted_eq hform _)
      (by simp [isImport]) rfl ?_
    intro _ b₁ kept₁ _
    refine .lift hname fun imported _ => binds_plain kept₁ ?_ (by simp [ownParts?, hf])
      (by simp [bodyStatements, hf])
    exact ⟨fun _ => ⟨rfl, rfl, rfl, rfl, rfl, rfl, rfl⟩, fun _ _ => .inl, fun _ _ => .inl⟩
  · exact .pure kept (answer_none (by grind [isImport]) (by grind [isImport]))

/-- A variable in a body stands below the function or event. -/
theorem binds_localVariable (kept : w.Keeps b) (has : w.Bears (w.tree.form node))
    (known : b.symbols.owns parent) :
    Binds w.strictly b (localVariable w.tree node parent) fun _ b' =>
      Declares w.tree b (nodeIf w.tree isDeclaration node) b' ∧
        (w.tree.isWanted isDeclaration node → LocalBelow b'.symbols parent node) := by
  refine .lift has fun form hform => ?_
  have hf := formAt_of_form hform
  rw [isWanted_eq hform, nodeIf_eq hform]
  split
  · rename_i typeName identifier initial
    have hd : w.tree.declaration? node = some (.var, identifier) := by simp [Tree.declaration?, hf]
    refine binds_declaring kept hd (by simp) (by rintro p ⟨⟩; exact known) ?_
    intro b₁ _ kept₁ _ makes
    have done {b' : Binding} (adds : Adds w.tree (· = b.symbols.next) b₁.symbols b'.symbols)
        (declares : Declares w.tree b₁ [] b') :
        (Declares w.tree b [node] b' ∧ (true = true → LocalBelow b'.symbols parent node)) ∧
          ∀ symbol, b'.symbols.get? b.symbols.next = some symbol →
            Furnished w.tree b'.symbols b.symbols.next symbol := by
      obtain ⟨all, under, furnished⟩ := makes.settle kept.sound hd (by simp) adds
        (settled_plain declares (by simp [ownParts?, hf]) (by simp [bodyStatements, hf]))
      exact ⟨⟨all, fun _ => ⟨_, under⟩⟩, furnished⟩
    dsimp only
    split
    · refine .lift (bears_type hform (by simp [Form.children])) fun valueType _ => ?_
      refine .imp (binds_change kept₁ rfl ⟨fun _ => ⟨rfl, rfl, rfl, rfl, rfl, rfl, rfl⟩,
        fun _ _ => .inl, fun _ _ => .inl⟩) ?_
      rintro _ b' adds - ⟨declares, -⟩
      exact done adds declares
    · exact .pure kept₁ (done (.refl _) .refl)
  · refine .pure kept ⟨?_, by grind [isDeclaration]⟩
    rw [if_neg (by grind [isDeclaration])]
    exact .refl

theorem binds_parameters {list : NodeId} (kept : w.Keeps b) (has : w.Bears (w.tree.form list))
    (known : b.symbols.owns parent) :
    Binds w.strictly b (parameters w.tree list parent) fun ids b' =>
      Declares w.tree b (parameterNodes w.tree list) b' ∧ ∀ id ∈ ids, b'.symbols.owns id := by
  refine .lift has fun form hform => ?_
  have hf := formAt_of_form hform
  split
  · rename_i parts
    have hnodes : parameterNodes w.tree list = parts.flatMap (nodeIf w.tree isParameter) := by
      simp [parameterNodes, hf]
    refine (binds_parts kept fun part hp b' grows kept' => binds_parameter kept'
      (Setting.bears_part hform (by simpa [Form.children] using hp)) (grows.owns known)).imp ?_
    intro ids b' _ _ listed
    exact ⟨hnodes ▸ listed.toDeclares, fun id hid => (listed.canBeMember id hid).owns⟩
  · have hnodes : parameterNodes w.tree list = [] := by
      simp only [parameterNodes, hf]
      grind
    exact .pure kept ⟨hnodes ▸ .refl, by simp⟩

/-! ## Bodies -/

theorem binds_collect {statements : List NodeId} (kept : w.Keeps b)
    (inside : w.tree.Descending → ∀ s ∈ statements, w.tree.Has s) :
    Binds w.strictly b (statements.mapM (w.tree.collect isDeclaration ·)) fun lists b' =>
      b' = b ∧ List.Forall₂ (fun s found => w.tree.collect isDeclaration s = .ok found)
        statements lists := by
  induction statements with
  | nil => exact .pure kept ⟨rfl, .nil⟩
  | cons s statements ih =>
    rw [List.mapM_cons]
    have bears : w.Bears (w.tree.collect isDeclaration s) := Setting.bears_of fun descending =>
      ⟨_, Tree.collect_eq_ok _ descending (inside descending s (by simp))⟩
    refine .lift bears fun found hfound => ?_
    refine .bind (ih fun descending other ho => inside descending other (by simp [ho])) ?_
    rintro lists _ - - ⟨rfl, all⟩
    exact .pure kept ⟨rfl, .cons hfound all⟩

theorem flatten_collected (descending : t.Descending) {statements : List NodeId}
    {lists : List (List NodeId)} (inside : ∀ s ∈ statements, t.Has s)
    (all : List.Forall₂ (fun s found => t.collect isDeclaration s = .ok found) statements lists) :
    lists.flatten = localNodes t statements := by
  induction all with
  | nil => rfl
  | @cons s found statements lists hfound _ ih =>
    cases hfound.symm.trans (Tree.collect_eq_ok isDeclaration descending (inside s (by simp)))
    rw [List.flatten_cons, ih fun other ho => inside other (by simp [ho])]
    rfl

theorem mem_localNodes (descending : t.Descending) {statements : List NodeId}
    (inside : ∀ s ∈ statements, t.Has s) {inner : NodeId} (h : inner ∈ localNodes t statements) :
    t.Has inner ∧ t.isWanted isDeclaration inner := by
  obtain ⟨s, hs, hmem⟩ := List.mem_flatMap.1 h
  obtain ⟨hpre, wanted⟩ := List.mem_filter.1 hmem
  exact ⟨Tree.has_of_mem_preorder descending (inside s hs) hpre, wanted⟩

theorem binds_localVariables {statements : List NodeId} (kept : w.Keeps b)
    (inside : w.tree.Descending → ∀ s ∈ statements, w.tree.Has s) (known : b.symbols.owns parent) :
    Binds w.strictly b (localVariables w.tree statements parent) fun _ b' =>
      Declares w.tree b (localNodes w.tree statements) b' ∧ ∀ statement ∈ statements, ∀ found,
        w.tree.collect isDeclaration statement = .ok found → ∀ inner ∈ found,
          w.tree.isWanted isDeclaration inner → LocalBelow b'.symbols parent inner := by
  refine .bind (binds_collect kept inside) ?_
  rintro lists _ - - ⟨rfl, all⟩
  have flat (descending : w.tree.Descending) : lists.flatten = localNodes w.tree statements :=
    flatten_collected descending (inside descending) all
  have bears {inner : NodeId} (hi : inner ∈ lists.flatten) : w.Bears (w.tree.form inner) :=
    Setting.bears_form (w.complete.imp_left fun descending =>
      (mem_localNodes descending (inside descending) (flat descending ▸ hi)).1)
  refine (binds_forM (Q := fun inner symbols =>
      w.tree.isWanted isDeclaration inner → LocalBelow symbols parent inner) _
    (fun grows below wanted => (below wanted).grows grows) kept
    fun inner hi b' grows kept' => binds_localVariable kept' (bears hi) (grows.owns known)).imp ?_
  rintro _ b' - - ⟨declares, below⟩
  refine ⟨declares.congr fun descending => ?_, fun statement hs found hfound inner hi wanted => ?_⟩
  · have each : ∀ inner ∈ localNodes w.tree statements,
        nodeIf w.tree isDeclaration inner = [inner] := fun inner hi => by
      simp [nodeIf, (mem_localNodes descending (inside descending) hi).2]
    rw [flat descending, List.flatMap_congr each]
    simp
  · obtain ⟨found', hmem, hfound'⟩ := exists_right_of_mem all hs
    cases hfound.symm.trans hfound'
    exact below inner (List.mem_flatten.2 ⟨found, hmem, hi⟩) wanted

/-- Functions and events end alike: their parameters are written down, and their local variables
follow. -/
theorem binds_body {f : Symbol → Symbol} {ids : List SymbolId} {list : NodeId}
    {statements : List NodeId} (kept : w.Keeps b') (known : b'.symbols.owns id)
    (plain : ownParts? w.tree node = none) (hbody : bodyStatements w.tree node = statements)
    (inside : w.tree.Descending → ∀ s ∈ statements, w.tree.Has s)
    (declares : Declares w.tree b (parameterNodes w.tree list) b')
    (owned : ∀ part ∈ ids, b'.symbols.owns part) (retains : ∀ s : Symbol, s.Retains (f s))
    (written : ∀ s : Symbol, (f s).members = s.members ∧ (f s).parameters = ids ∧
      (f s).imports = s.imports) :
    Binds (w.conduct (· = id)) b'
      (change id f >>= fun _ => localVariables w.tree statements id >>= fun _ => pure (some id))
      (Settled w.tree b id node
        (parameterNodes w.tree list ++ localNodes w.tree statements)) := by
  have writes : Writes w.tree b'.symbols f := by
    refine ⟨retains, fun s part hp => .inl ((written s).1 ▸ hp), fun s part hp => ?_⟩
    rw [(written s).2.1, (written s).2.2, List.mem_append] at hp
    rw [List.mem_append]
    exact hp.elim (fun hp => .inr (owned part hp)) fun hp => .inl (.inr hp)
  refine .bind (binds_change kept rfl writes) ?_
  rintro _ b₁ adds kept₁ ⟨changed, -⟩
  have known₁ := Grows.owns (Adds.toGrows adds) known
  refine .bind (Setting.relax (binds_localVariables kept₁ inside known₁)) ?_
  rintro _ b₂ - kept₂ ⟨locals, below⟩
  refine .pure kept₂ ⟨declares.trans (changed.trans locals), rfl, ?_, ?_⟩
  · intro symbol parts _ hp
    cases plain.symm.trans hp
  · rw [hbody]
    exact fun _ => below

theorem binds_function (kept : w.Keeps b) (has : w.Bears (w.tree.form node))
    (known : b.symbols.owns parent) :
    Binds w.strictly b (function w.tree node parent) (Answer w.tree b (some parent) node
      (declaresAs w.tree isFunction node) (functionNodes w.tree node)) := by
  refine .lift has fun form hform => ?_
  have hf := formAt_of_form hform
  split
  · rename_i header statements
    refine .lift (Setting.bears_part hform (by simp [Form.children])) fun headerForm hheader => ?_
    have hh := formAt_of_form hheader
    split
    · rename_i returnType identifier list modifiers
      have hd : w.tree.declaration? node = some (.function, identifier) := by
        simp [Tree.declaration?, hf, hh]
      have hnodes : functionNodes w.tree node =
          node :: bodyNodes w.tree identifier list statements := by simp [functionNodes, hf, hh]
      have inside (descending : w.tree.Descending) : ∀ s ∈ statements, w.tree.Has s :=
        fun s hs => has_of_form descending hform (by simp [Form.children, hs])
      rw [declaresAs_of hform hd rfl]
      refine binds_answering _ kept known hd (by simp) (isWanted_eq hform _) hnodes rfl ?_
      intro _ b₁ kept₁ known₁
      refine .bind (binds_change kept₁ rfl ⟨fun _ => ⟨rfl, rfl, rfl, rfl, rfl, rfl, by simp⟩,
        fun _ _ => .inl, fun _ _ => .inl⟩) ?_
      rintro _ b₂ adds₂ kept₂ ⟨written, -⟩
      have known₂ := Grows.owns (Adds.toGrows adds₂) known₁
      refine .bind (Setting.relax (binds_parameters kept₂
        (Setting.bears_part hheader (by simp [Form.children])) known₂)) ?_
      rintro ids b₃ adds₃ kept₃ ⟨declares, owned⟩
      have finish (valueType : Option TypeReference) : Binds (w.conduct (· = b.symbols.next)) b₃
          (change b.symbols.next (fun s => { s with parameters := ids, valueType := valueType }) >>=
            fun _ => localVariables w.tree statements b.symbols.next >>= fun _ =>
              pure (some b.symbols.next))
          (Settled w.tree b₁ b.symbols.next node
            (parameterNodes w.tree list ++ localNodes w.tree statements)) :=
        binds_body kept₃ (Grows.owns (Adds.toGrows adds₃) known₂) (by simp [ownParts?, hf])
          (by simp [bodyStatements, hf]) inside (written.trans declares) owned
          (fun _ => ⟨rfl, rfl, rfl, rfl, rfl, rfl, rfl⟩) fun _ => ⟨rfl, rfl, rfl⟩
      cases returnType with
      | none => exact finish none
      | some returnType =>
        exact .lift (bears_type hheader (by simp [Form.children])) fun valueType _ =>
          finish valueType
    · refine .pure kept (answer_none ?_ ?_)
      · simp only [declaresAs, Tree.declaration?, hf, hh]
        grind
      · simp only [functionNodes, hf, hh]
        grind
  · refine .pure kept (answer_none (declaresAs_of_not hform (by grind [isFunction])) ?_)
    simp only [functionNodes, hf]
    grind

theorem binds_event (kept : w.Keeps b) (has : w.Bears (w.tree.form node))
    (known : b.symbols.owns parent) :
    Binds w.strictly b (event w.tree node parent) (Answer w.tree b (some parent) node
      (declaresAs w.tree isEvent node) (eventNodes w.tree node)) := by
  refine .lift has fun form hform => ?_
  have hf := formAt_of_form hform
  split
  · rename_i header statements
    refine .lift (Setting.bears_part hform (by simp [Form.children])) fun headerForm hheader => ?_
    have hh := formAt_of_form hheader
    split
    · rename_i identifier list
      have hd : w.tree.declaration? node = some (.event, identifier) := by
        simp [Tree.declaration?, hf, hh]
      have hnodes : eventNodes w.tree node =
          node :: bodyNodes w.tree identifier list statements := by simp [eventNodes, hf, hh]
      rw [declaresAs_of hform hd rfl]
      refine binds_answering _ kept known hd (by simp) (isWanted_eq hform _) hnodes rfl ?_
      intro _ b₁ kept₁ known₁
      refine .bind (Setting.relax (binds_parameters kept₁
        (Setting.bears_part hheader (by simp [Form.children])) known₁)) ?_
      rintro ids b₂ adds₂ kept₂ ⟨declares, owned⟩
      exact binds_body kept₂ (Grows.owns (Adds.toGrows adds₂) known₁) (by simp [ownParts?, hf])
        (by simp [bodyStatements, hf])
        (fun descending s hs => has_of_form descending hform (by simp [Form.children, hs])) declares
        owned (fun _ => ⟨rfl, rfl, rfl, rfl, rfl, rfl, rfl⟩) fun _ => ⟨rfl, rfl, rfl⟩
    · refine .pure kept (answer_none ?_ ?_)
      · simp only [declaresAs, Tree.declaration?, hf, hh]
        grind
      · simp only [eventNodes, hf, hh]
        grind
  · refine .pure kept (answer_none (declaresAs_of_not hform (by grind [isEvent])) ?_)
    simp only [eventNodes, hf]
    grind

/-! ## Properties, groups and structs -/

theorem binds_optionalFunction {accessor : Option NodeId} (kept : w.Keeps b)
    (has : ∀ f ∈ accessor, w.Bears (w.tree.form f)) (known : b.symbols.owns parent) :
    Binds w.strictly b (optionalFunction w.tree accessor parent) fun _ b' =>
      Declares w.tree b (accessor.toList.flatMap (functionNodes w.tree)) b' := by
  cases accessor with
  | none => exact .pure kept .refl
  | some f =>
    refine .imp (binds_function kept (has f rfl) known) fun _ _ _ _ h => ?_
    exact h.toDeclares.congr fun _ => by simp

theorem binds_property (kept : w.Keeps b) (has : w.Bears (w.tree.form node))
    (known : b.symbols.owns parent) :
    Binds w.strictly b (property w.tree parent node) (Answer w.tree b (some parent) node
      (w.tree.isWanted isProperty node) (propertyNodes w.tree node)) := by
  refine .lift has fun form hform => ?_
  have hf := formAt_of_form hform
  rw [isWanted_eq hform]
  split
  · rename_i typeName identifier initial functions modifiers
    have hd : w.tree.declaration? node = some (.property, identifier) := by
      simp [Tree.declaration?, hf]
    have hnodes : propertyNodes w.tree node = node :: if isNamed w.tree identifier then
        (accessors w.tree functions).flatMap (functionNodes w.tree) else [] := by
      simp [propertyNodes, hf]
    have bears {f : NodeId} (hm : f ∈ functions) : w.Bears (w.tree.form f) :=
      Setting.bears_part hform (by simp [Form.children, hm])
    have accessible (name : String) : w.Bears (accessor? w.tree name functions) :=
      Setting.bears_of fun descending => accessor?_eq_ok descending
        (fun f hm => has_of_form descending hform (by simp [Form.children, hm])) name
    refine binds_answering _ kept known hd (by simp) (isWanted_eq hform _) hnodes rfl ?_
    intro _ b₁ kept₁ known₁
    refine .lift (accessible "get") fun getter hget =>
      .lift (accessible "set") fun setter hset => ?_
    cases accessorAt_of_accessor? hget
    cases accessorAt_of_accessor? hset
    refine .bind (Setting.relax (binds_optionalFunction kept₁
      (fun f hm => bears (List.mem_of_find?_eq_some hm)) known₁)) ?_
    intro _ b₂ adds₂ kept₂ first
    have known₂ := Grows.owns (Adds.toGrows adds₂) known₁
    refine .bind (Setting.relax (binds_optionalFunction kept₂
      (fun f hm => bears (List.mem_of_find?_eq_some hm)) known₂)) ?_
    intro _ b₃ adds₃ kept₃ second
    refine .lift (bears_type hform (by simp [Form.children])) fun valueType _ => ?_
    refine .bind (binds_change kept₃ rfl ⟨fun _ => ⟨rfl, rfl, rfl, rfl, rfl, rfl, by simp⟩,
      fun _ _ => .inl, fun _ _ => .inl⟩) ?_
    rintro _ b₄ adds₄ kept₄ ⟨written, -⟩
    have known₄ := Grows.owns (Adds.toGrows adds₄) (Grows.owns (Adds.toGrows adds₃) known₂)
    refine .bind (Setting.relax (binds_forM (Q := fun _ _ => True) (functionNodes w.tree)
      (fun _ h => h) kept₄ fun f hm b' grows kept' => ?_)) ?_
    · exact .bind (binds_function kept' (bears (List.mem_of_mem_filter hm)) (grows.owns known₄))
        fun _ _ _ kept'' h => .pure kept'' ⟨h.toDeclares, trivial⟩
    · rintro _ b₅ - kept₅ ⟨others, -⟩
      have declares := (first.trans second).trans (written.trans others)
      exact .pure kept₅ (settled_plain (declares.congr fun _ => by simp [accessors])
        (by simp [ownParts?, hf]) (by simp [bodyStatements, hf]))
  · refine .pure kept (answer_none (by grind [isProperty]) ?_)
    simp only [propertyNodes, hf]
    grind

/-- A declaration whose parts become its members: the parts are bound, and then written down. -/
theorem binds_members {f : NodeId → Binder (Option SymbolId)} {wanted : NodeId → Bool}
    {made : NodeId → List NodeId} {parts : List NodeId} {write : List SymbolId → Symbol → Symbol}
    (kept : w.Keeps b) (known : b.symbols.owns id)
    (own : ownParts? w.tree node = some (parts.filter wanted))
    (bare : bodyStatements w.tree node = [])
    (retains : ∀ ids, ∀ s : Symbol, s.Retains (write ids s))
    (written : ∀ ids, ∀ s : Symbol, (write ids s).members = ids ∧
      (write ids s).parameters = s.parameters ∧ (write ids s).imports = s.imports)
    (body : ∀ part ∈ parts, ∀ b', w.Keeps b' → b'.symbols.owns id →
      Binds w.strictly b' (f part) (Answer w.tree b' (some id) part (wanted part) (made part))) :
    Binds (w.conduct (· = id)) b (parts.filterMapM f >>= fun ids =>
      change id (write ids) >>= fun _ => pure (some id))
      (Settled w.tree b id node (parts.flatMap made)) := by
  refine .bind (Setting.relax (binds_parts kept fun part hp b' grows kept' =>
    body part hp b' kept' (grows.owns known))) fun ids b₁ adds₁ kept₁ listed => ?_
  have writes : Writes w.tree b₁.symbols (write ids) := by
    refine ⟨retains ids, fun s part hp => ?_, fun s part hp => ?_⟩
    · rw [(written ids s).1] at hp
      exact .inr (listed.canBeMember part hp)
    · rw [(written ids s).2.1, (written ids s).2.2] at hp
      exact .inl hp
  refine .bind (binds_change kept₁ rfl writes) ?_
  rintro _ b₂ adds₂ kept₂ ⟨declares, changed⟩
  refine .pure kept₂ ⟨(listed.toDeclares.trans declares).congr fun _ => by simp, rfl, ?_,
    by simp [bare]⟩
  intro symbol parts' hs hp
  cases own.symm.trans hp
  obtain ⟨symbol₁, hs₁⟩ := SymbolTable.owns_iff.1 (Grows.owns (Adds.toGrows adds₁) known)
  cases (changed symbol₁ hs₁).symm.trans hs
  rw [(written ids symbol₁).1]
  refine Lists.grows ⟨listed.under.imp fun _ _ under => under.declaredAt, listed.nodup, ?_⟩
    (Adds.toGrows adds₂)
  intro member hm
  obtain ⟨part, -, under⟩ := exists_right_of_mem listed.under hm
  exact .inl under.below

theorem binds_group (kept : w.Keeps b) (has : w.Bears (w.tree.form node))
    (known : b.symbols.owns parent) :
    Binds w.strictly b (group w.tree node parent) (Answer w.tree b (some parent) node
      (declaresAs w.tree isGroup node) (groupNodes w.tree node)) := by
  refine .lift has fun form hform => ?_
  have hf := formAt_of_form hform
  split
  · rename_i identifier modifiers properties
    have hd : w.tree.declaration? node = some (.group, identifier) := by
      simp [Tree.declaration?, hf]
    have hnodes : groupNodes w.tree node = node :: if isNamed w.tree identifier then
        properties.flatMap (propertyNodes w.tree) else [] := by simp [groupNodes, hf]
    rw [declaresAs_of hform hd rfl]
    refine binds_answering _ kept known hd (by simp) (isWanted_eq hform _) hnodes rfl ?_
    intro named b₁ kept₁ known₁
    exact binds_members kept₁ known₁ (by simp [ownParts?, memberParts, hf, named])
      (by simp [bodyStatements, hf]) (fun _ _ => ⟨rfl, rfl, rfl, rfl, rfl, rfl, rfl⟩)
      (fun _ _ => ⟨rfl, rfl, rfl⟩) fun part hp b' kept' known' =>
        binds_property kept' (Setting.bears_part hform (by simp [Form.children, hp])) known'
  · refine .pure kept (answer_none (declaresAs_of_not hform (by grind [isGroup])) ?_)
    simp only [groupNodes, hf]
    grind

theorem binds_struct (kept : w.Keeps b) (has : w.Bears (w.tree.form node))
    (known : b.symbols.owns parent) :
    Binds w.strictly b (struct w.tree node parent) (Answer w.tree b (some parent) node
      (declaresAs w.tree Form.isStruct node) (structNodes w.tree node)) := by
  refine .lift has fun form hform => ?_
  have hf := formAt_of_form hform
  split
  · rename_i identifier members
    have hd : w.tree.declaration? node = some (.struct, identifier) := by
      simp [Tree.declaration?, hf]
    have hnodes : structNodes w.tree node = node :: if isNamed w.tree identifier then
        members.flatMap (nodeIf w.tree isVariable) else [] := by simp [structNodes, hf]
    rw [declaresAs_of hform hd rfl]
    refine binds_answering _ kept known hd (by simp) (isWanted_eq hform _) hnodes rfl ?_
    intro named b₁ kept₁ known₁
    exact binds_members kept₁ known₁ (by simp [ownParts?, memberParts, hf, named])
      (by simp [bodyStatements, hf]) (fun _ _ => ⟨rfl, rfl, rfl, rfl, rfl, rfl, rfl⟩)
      (fun _ _ => ⟨rfl, rfl, rfl⟩) fun part hp b' kept' known' =>
        binds_variableDefinition kept'
          (Setting.bears_part hform (by simp [Form.children, hp])) known'
  · refine .pure kept (answer_none (declaresAs_of_not hform (by grind [Form.isStruct])) ?_)
    simp only [structNodes, hf]
    grind

/-! ## Definitions -/

theorem binds_definition {depth : Nat} (kept : w.Keeps b) (has : w.Bears (w.tree.form node))
    (enough : node.index < depth ∨ ∀ e, w.tolerates e) (known : b.symbols.owns parent) :
    Binds w.strictly b (definition w.tree depth parent node) (Answer w.tree b (some parent) node
      (defines w.tree node) (definitionNodes w.tree depth node)) := by
  induction depth generalizing node parent b with
  | zero => exact .throw ((enough.resolve_left (Nat.not_lt_zero _)) _)
  | succ depth ih =>
    refine .lift has fun form hform => ?_
    have hf := formAt_of_form hform
    split
    · have hdefines : defines w.tree node = w.tree.isWanted isVariable node := by
        simp [defines, Tree.declaration?, hf, isWanted_eq hform, isDefinition, isVariable]
      have hnodes : definitionNodes w.tree (depth + 1) node = nodeIf w.tree isVariable node := by
        simp [definitionNodes, hf, nodeIf_eq hform, isVariable]
      rw [hdefines, hnodes]
      exact binds_variableDefinition kept has known
    · have hdefines : defines w.tree node = w.tree.isWanted isProperty node := by
        simp [defines, Tree.declaration?, hf, isWanted_eq hform, isDefinition, isProperty]
      rw [hdefines]
      simpa only [definitionNodes, hf] using binds_property kept has known
    · rw [← defines_eq isFunction hform rfl]
      simpa only [definitionNodes, hf] using binds_function kept has known
    · rw [← defines_eq isEvent hform rfl]
      simpa only [definitionNodes, hf] using binds_event kept has known
    · rename_i identifier
      have hd : w.tree.declaration? node = some (.customEvent, identifier) := by
        simp [Tree.declaration?, hf]
      rw [← defines_eq isDefinition hform rfl, declaresAs_of hform hd rfl]
      refine binds_answering [] kept known hd (by simp) (isWanted_eq hform _)
        (by simp [definitionNodes, hf]) rfl ?_
      intro _ b₁ kept₁ _
      exact .pure kept₁ (settled_plain .refl (by simp [ownParts?, hf])
        (by simp [bodyStatements, hf]))
    · rw [← defines_eq isGroup hform rfl]
      simpa only [definitionNodes, hf] using binds_group kept has known
    · rename_i identifier isAuto definitions
      have hd : w.tree.declaration? node = some (.state, identifier) := by
        simp [Tree.declaration?, hf]
      -- The definitions of a state come before it, so the depth is enough for them.
      have less {part : NodeId} (hp : part ∈ definitions) :
          part.index < depth ∨ ∀ e, w.tolerates e := by
        rcases w.complete with descending | tolerant
        · refine enough.imp_left fun enough => ?_
          obtain ⟨n, hn, hform⟩ := Option.map_eq_some_iff.1 hf
          have := descending node n hn part (by simp [hform, Form.children, hp])
          omega
        · exact .inr tolerant
      have hnodes : definitionNodes w.tree (depth + 1) node = node :: if isNamed w.tree identifier
          then definitions.flatMap (definitionNodes w.tree depth) else [] := by
        simp only [definitionNodes, hf]
      rw [← defines_eq isDefinition hform rfl, declaresAs_of hform hd rfl]
      refine binds_answering _ kept known hd (by simp) (isWanted_eq hform _) hnodes rfl ?_
      intro named b₁ kept₁ known₁
      exact binds_members kept₁ known₁ (by simp [ownParts?, memberParts, hf, named])
        (by simp [bodyStatements, hf]) (fun _ _ => ⟨rfl, rfl, rfl, rfl, rfl, rfl, by simp⟩)
        (fun _ _ => ⟨rfl, rfl, rfl⟩) fun part hp b' kept' known' =>
          ih kept' (Setting.bears_part hform (by simp [Form.children, hp])) (less hp) known'
    · rw [← defines_eq Form.isStruct hform rfl]
      simpa only [definitionNodes, hf] using binds_struct kept has known
    · refine .pure kept (answer_none ?_ ?_)
      · rw [← defines_eq isDefinition hform rfl]
        exact declaresAs_of_not hform (by grind [isDefinition])
      · simp only [definitionNodes, hf]
        grind

/-! ## Scripts -/

/-- What binding a script does: it makes the symbols of its nodes and registers its name. -/
structure Scripted (t : Tree) (b : Binding) (root : NodeId) (answer : Option SymbolId)
    (b' : Binding) : Prop where
  nodes : t.Descending → nodes b'.symbols = nodes b.symbols ++ scriptNodes t root
  none : answer = none ↔ scriptNodes t root = []
  some : ∀ id, answer = some id → DeclaredAt b'.symbols id root
  registers : ∃ name, t.scriptName root = .ok name ∧
    Registers (name.getD "") answer b.symbols b'.symbols

/-- Nothing is registered for a script without a name, and nothing more is bound of it. -/
theorem Makes.scripted {root : NodeId} {name : Option String}
    (makes : Makes t .script root (t.nameAt identifier) none b b₁) (sound : Sound t b.symbols)
    (hd : t.declaration? root = some (.script, identifier)) (unnamed : isNamed t identifier = false)
    (hname : t.scriptName root = .ok name) (hget : t.nameAt identifier = name.getD "")
    (made : scriptNodes t root = [root]) :
    Scripted t b root (some b.symbols.next) b₁ ∧
      ∀ symbol, b₁.symbols.get? b.symbols.next = some symbol →
        Furnished t b₁.symbols b.symbols.next symbol := by
  have empty : (name.getD "").isEmpty = true := by simpa [isNamed, hget] using unnamed
  have settled := makes.settled hd unnamed
  refine ⟨⟨fun _ => ?_, by simp [made], ?_, name, hname, fun _ => makes.symbols_eq.2.2,
    by simp [empty]⟩, ?_⟩
  · rw [makes.nodes_eq sound.base, made]
  · rintro _ ⟨⟩
    exact ⟨_, makes.get?_next, rfl⟩
  · intro symbol hs
    cases makes.get?_next.symm.trans hs
    exact furnished_of rfl hd (fun parts hp => settled.lists _ parts hs hp) settled.locals
      (by simp [hasName, hd, unnamed])

/-- The members of a script: the symbols of its definitions, and those of its groups and states. -/
theorem Listed.script {definitions : List NodeId} {made : NodeId → List NodeId}
    {ids : List SymbolId} (h : Listed t b (some id) (defines t) made definitions ids b')
    (known : b.symbols.owns id) (adds : Adds t (· = id) b.symbols b'.symbols)
    (sound : Sound t b'.symbols) :
    Lists b'.symbols id .script
        (ids ++ membersWithin b'.symbols .group ids ++ membersWithin b'.symbols .state ids)
        (definitions.filter (defines t) ++ partsWithin t .group (definitions.filter (defines t)) ++
          partsWithin t .state (definitions.filter (defines t))) ∧
      ∀ member ∈ ids ++ membersWithin b'.symbols .group ids ++ membersWithin b'.symbols .state ids,
        CanBeMember t b'.symbols member := by
  -- The definitions have new symbols, which are furnished, and the script has an old one.
  have apart : id ∉ ids := by
    intro hid
    obtain ⟨symbol, hs⟩ := SymbolTable.owns_iff.1 known
    cases hs.symm.trans (h.fresh id hid)
  have furnished : ∀ other ∈ ids, ∀ symbol, b'.symbols.get? other = some symbol →
      Furnished t b'.symbols other symbol := fun other ho symbol hs =>
    adds.furnished (h.fresh other ho) hs fun same => apart (same ▸ ho)
  refine ⟨lists_script furnished h.under h.nodup apart, fun member hm => ?_⟩
  simp only [List.mem_append] at hm
  rcases hm with (hm | hm) | hm
  · exact h.canBeMember member hm
  · exact canBeMember_of_mem_membersWithin sound hm
  · exact canBeMember_of_mem_membersWithin sound hm

/-- The last step of a script writes down its members and imports. -/
theorem binds_scriptMembers {b₂ : Binding} {root : NodeId} {name : Option String}
    {members imports : List SymbolId} {parts : List NodeId} {f : Symbol → Symbol}
    (kept : w.Keeps b₂) (sound : Sound w.tree b.symbols)
    (makes : Makes w.tree .script root (w.tree.nameAt identifier) none b b₁)
    (adds : Adds w.tree (· = b.symbols.next) b₁.symbols b₂.symbols)
    (hd : w.tree.declaration? root = some (.script, identifier)) (named : isNamed w.tree identifier)
    (hname : w.tree.scriptName root = .ok name) (hget : w.tree.nameAt identifier = name.getD "")
    (made : scriptNodes w.tree root = root :: rest)
    (hnodes : w.tree.Descending → nodes b₂.symbols = nodes b₁.symbols ++ rest)
    (scripts : b₂.symbols.scripts =
      (b₁.symbols.registerScript (w.tree.nameAt identifier) b.symbols.next).scripts)
    (bare : bodyStatements w.tree root = []) (own : ownParts? w.tree root = some parts)
    (lists : Lists b₂.symbols b.symbols.next .script members parts)
    (below : ∀ part ∈ ownDefinitions w.tree root, LocalBelow b₂.symbols b.symbols.next part)
    (eligible : ∀ member ∈ members, CanBeMember w.tree b₂.symbols member)
    (owned : ∀ line ∈ imports, b₂.symbols.owns line)
    (retains : ∀ s : Symbol, s.Retains (f s))
    (written : ∀ s : Symbol, (f s).members = members ∧ (f s).parameters = s.parameters ∧
      (f s).imports = imports) :
    Binds (w.conduct (· = b.symbols.next)) b₂
      (change b.symbols.next f >>= fun _ => pure (some b.symbols.next)) fun answer b' =>
        Scripted w.tree b root answer b' ∧
          ∀ symbol, b'.symbols.get? b.symbols.next = some symbol →
            Furnished w.tree b'.symbols b.symbols.next symbol := by
  have filled : (name.getD "").isEmpty = false := by simpa [isNamed, hget] using named
  have writes : Writes w.tree b₂.symbols f := by
    refine ⟨retains, fun s part hp => ?_, fun s part hp => ?_⟩
    · rw [(written s).1] at hp
      exact .inr (eligible part hp)
    · rw [(written s).2.1, (written s).2.2, List.mem_append] at hp
      rw [List.mem_append]
      exact hp.elim (fun hp => .inl (.inl hp)) fun hp => .inr (owned part hp)
  refine .bind (binds_change kept rfl writes) ?_
  rintro _ b' adds' kept' ⟨declares, changed⟩
  obtain ⟨symbol, hs, retained, -⟩ := adds.kept makes.get?_next
  have hs' := changed symbol hs
  have hnode : (f symbol).declaration = some root :=
    (retains symbol).declaration.trans retained.declaration
  have hkind : (f symbol).kind = .script := (retains symbol).kind.trans retained.kind
  refine .pure kept' ⟨⟨fun descending => ?_, by simp [made], ?_, name, hname, by simp [filled], ?_⟩,
    ?_⟩
  · rw [declares.nodes descending, hnodes descending, makes.nodes_eq sound.base, made]
    simp
  · rintro _ ⟨⟩
    exact ⟨_, hs', hnode⟩
  · rintro _ ⟨⟩ -
    refine ⟨?_, ?_⟩
    · rw [declares.scripts, scripts, scripts_registerScript, scripts_registerScript,
        makes.symbols_eq.2.2, hget]
    · rw [hs', Option.map_some, (retains symbol).name, retained.name]
      simp [SymbolTable.fresh, title, hget, filled]
  · intro symbol' found
    cases hs'.symm.trans found
    refine furnished_of hnode (by rw [hkind]; exact hd) (fun parts' hp => ?_) (by simp [bare])
      fun _ part hp => (below part hp).grows (Adds.toGrows adds')
    cases own.symm.trans hp
    rw [(written symbol).1, hkind]
    exact lists.grows (Adds.toGrows adds')

/-- A script with a name is registered right after its declaration. Its members are written down
when all its definitions are bound. -/
theorem binds_script (root : NodeId) (kept : w.Keeps b) (has : w.Bears (w.tree.form root)) :
    Binds w.strictly b (script w.tree root) (Scripted w.tree b root) := by
  refine .lift has fun form hform => ?_
  have hf := formAt_of_form hform
  have nothing (hname : w.tree.scriptName root = .ok none) (bare : scriptNodes w.tree root = []) :
      Scripted w.tree b root none b :=
    ⟨fun _ => by simp [bare], by simp [bare], by simp, none, hname, fun _ => rfl, by simp⟩
  split
  · rename_i header imports definitions
    refine .lift (Setting.bears_part hform (by simp [Form.children])) fun headerForm hheader => ?_
    have hh := formAt_of_form hheader
    split
    · rename_i identifier extended modifiers
      have hd : w.tree.declaration? root = some (.script, identifier) := by
        simp [Tree.declaration?, hf, hh]
      have made : scriptNodes w.tree root = root :: if isNamed w.tree identifier then
          definitions.flatMap (definitionNodes w.tree (w.tree.size + 1)) ++
            imports.flatMap (nodeIf w.tree isImport) else [] := by
        simp [scriptNodes, hf, hh]
      refine binds_declaring kept hd (by simp) (fun _ h => by cases h) ?_
      intro b₁ name kept₁ hname makes
      have hscript : w.tree.scriptName root = .ok name := (scriptName_eq hform hheader).trans hname
      have hget : w.tree.nameAt identifier = name.getD "" := Tree.nameAt_eq hname
      cases hnamed : isNamed w.tree identifier with
      | false =>
        exact .pure kept₁ (makes.scripted kept.sound hd hnamed hscript hget (by simp [made, hnamed]))
      | true =>
        rw [hnamed, if_pos rfl] at made
        have htitle : title (w.tree.nameAt identifier) = w.tree.nameAt identifier := by
          simp only [isNamed, Bool.not_eq_true'] at hnamed
          simp [title, hnamed]
        have bears {child : NodeId} (hc : child ∈ imports ∨ child ∈ definitions) :
            w.Bears (w.tree.form child) :=
          Setting.bears_part hform (by simp [Form.children, hc])
        have enough {child : NodeId} (hc : child ∈ definitions) :
            child.index < w.tree.size + 1 ∨ ∀ e, w.tolerates e :=
          w.complete.imp_left fun descending => Nat.lt_succ_of_lt
            (has_of_form descending hform (by simp [Form.children, hc]))
        refine .lift (fun e he => by cases hname.symm.trans he) fun again hagain => ?_
        cases hname.symm.trans hagain
        rw [← hget]
        refine .bind (binds_register kept₁ makes.get?_next rfl htitle) ?_
        rintro _ _ adds₂ kept₂ rfl
        have known₂ := Grows.owns (Adds.toGrows adds₂) (SymbolTable.owns_of_get? makes.get?_next)
        refine .bind (Setting.relax (binds_parts kept₂ fun child hc b' grows kept' =>
          binds_definition kept' (bears (.inr hc)) (enough hc) (grows.owns known₂))) ?_
        intro ids b₃ adds₃ kept₃ listed
        have known₃ := Grows.owns (Adds.toGrows adds₃) known₂
        obtain ⟨lists, eligible⟩ := listed.script known₂ adds₃ kept₃.sound
        -- The members of groups and states are read before the imports are bound.
        refine .read (fun _ => rfl) (.bind (Setting.relax (binds_parts kept₃
          fun child hc b' grows kept' => binds_importLine kept' (bears (.inl hc))
            (grows.owns known₃))) ?_)
        intro imported b₄ adds₄ kept₄ listed₄
        have grows₄ : Grows (· = b.symbols.next) b₃.symbols b₄.symbols := Adds.toGrows adds₄
        have declares := listed.toDeclares.trans listed₄.toDeclares
        have below : ∀ child ∈ ownDefinitions w.tree root,
            LocalBelow b₄.symbols b.symbols.next child := by
          intro child hc
          simp only [ownDefinitions, hf] at hc
          obtain ⟨other, -, stands⟩ := exists_left_of_mem listed.under hc
          exact ⟨other, stands.grows grows₄⟩
        have finish {f : Symbol → Symbol} := binds_scriptMembers (f := f) kept₄ kept.sound makes
          (adds₂.trans (adds₃.trans adds₄)) hd hnamed hscript hget made
          (fun descending => (declares.nodes descending).trans (by rw [nodes_register]))
          declares.scripts (by simp [bodyStatements, hf])
          (by simp [ownParts?, hf, hasName, hd, hnamed]) (lists.grows grows₄) below
          (fun member hm => (eligible member hm).grows grows₄)
          fun line hl => (listed₄.canBeMember line hl).owns
        cases extended with
        | none =>
          exact finish (fun _ => ⟨rfl, rfl, rfl, rfl, rfl, rfl, by simp⟩) fun _ => ⟨rfl, rfl, rfl⟩
        | some extended =>
          have hextended : w.Bears (w.tree.nameOf extended) := Setting.bears_of fun descending =>
            Tree.nameOf_eq_ok descending (has_of_form descending hheader (by simp [Form.children]))
          exact .lift hextended fun _ _ =>
            finish (fun _ => ⟨rfl, rfl, rfl, rfl, rfl, rfl, by simp⟩) fun _ => ⟨rfl, rfl, rfl⟩
    · refine .pure kept (nothing ?_ ?_)
      · simp only [Tree.scriptName, hform, hheader, bind, Except.bind]
        rfl
      · simp only [scriptNodes, hf, hh]
        grind
  · refine .pure kept (nothing ?_ ?_)
    · simp only [Tree.scriptName, hform, bind, Except.bind]
      rfl
    · simp only [scriptNodes, hf]
      grind

section Trees

variable {I : Binding → Prop} {symbols : SymbolTable} {report : Report} {root : NodeId}
  {answer : Option SymbolId}

/-- What binding a script of any tree does when it ends well. -/
theorem script_eq_ok (sound : Sound t symbols)
    (run : script t root ⟨symbols, report⟩ = .ok (answer, b)) :
    Sound t b.symbols ∧ Adds t (fun _ => False) symbols b.symbols ∧
      Scripted t ⟨symbols, report⟩ root answer b ∧ ∃ more, b.report = report ++ more ∧
        ∀ before, script t root ⟨symbols, before⟩ = .ok (answer, ⟨b.symbols, before ++ more⟩) := by
  have binds := binds_script (w := .lenient (steps_true t)) (b := ⟨symbols, report⟩) root
    ⟨sound, trivial⟩ fun _ _ => trivial
  obtain ⟨adds, kept, scripted⟩ := binds.runs.of_ok run
  exact ⟨kept.sound, adds, scripted, binds.impartial run⟩

/-- Binding a script keeps an invariant. -/
theorem Steps.script (steps : Steps t I) (sound : Sound t symbols) (holds : I ⟨symbols, report⟩)
    (run : script t root ⟨symbols, report⟩ = .ok (answer, b)) : Sound t b.symbols ∧ I b := by
  have binds := binds_script (w := .lenient steps) (b := ⟨symbols, report⟩) root
    ⟨sound, holds⟩ fun _ _ => trivial
  obtain ⟨-, kept, -⟩ := binds.runs.of_ok run
  exact ⟨kept.sound, kept.invariant⟩

/-! ## Trees -/

/-- What becomes of a script: its symbol declares it, and a name that it has is registered. -/
structure ScriptBound (t : Tree) (symbols : SymbolTable) (root : NodeId)
    (answer : Option SymbolId) : Prop where
  bare : answer = none → scriptNodes t root = []
  declared : ∀ id, answer = some id → DeclaredAt symbols id root
  registered : ∀ identifier, answer.isSome → t.declaration? root = some (.script, identifier) →
    isNamed t identifier →
      ∃ holder, symbols.scripts.find? (Text.lowercase (t.nameAt identifier)) = some holder

theorem ScriptBound.grows {symbols' : SymbolTable} (h : ScriptBound t symbols root answer)
    (g : Grows (fun _ => False) symbols symbols') : ScriptBound t symbols' root answer where
  bare := h.bare
  declared id ha := (h.declared id ha).grows g
  registered identifier ha hd named := by
    obtain ⟨holder, hfind⟩ := h.registered identifier ha hd named
    exact ⟨holder, g.scripts hfind⟩

theorem nameAt_of_scriptName {name : Option String} (hname : t.scriptName root = .ok name)
    (hd : t.declaration? root = some (.script, identifier)) :
    t.nameAt identifier = name.getD "" := by
  obtain ⟨form, hform, rest⟩ := exists_of_bind_eq_ok hname
  rw [Tree.declaration?, formAt_of_form hform] at hd
  cases form <;> simp only at hd <;> try grind
  obtain ⟨headerForm, hheader, rest⟩ := exists_of_bind_eq_ok rest
  rw [formAt_of_form hheader] at hd
  cases headerForm <;> simp only [Option.some.injEq, Prod.mk.injEq, reduceCtorEq] at hd
  rw [← hd.2]
  exact Tree.nameAt_eq rest

theorem Scripted.bound (h : Scripted t b root answer b') :
    ScriptBound t b'.symbols root answer where
  bare := h.none.1
  declared := h.some
  registered identifier ha hd named := by
    obtain ⟨id, rfl⟩ := Option.isSome_iff_exists.1 ha
    obtain ⟨name, hname, registers⟩ := h.registers
    have hget := nameAt_of_scriptName hname hd
    obtain ⟨scripts, -⟩ := registers.named rfl (by simpa [isNamed, hget] using named)
    rw [scripts, scripts_registerScript, hget]
    split
    · rename_i taken
      exact Registry.contains_iff.1 taken
    · exact ⟨id, by simp⟩

/-- Binding some scripts makes the symbols of their nodes. -/
theorem binds_scripts (roots : List NodeId) (kept : w.Keeps b)
    (has : ∀ root ∈ roots, w.Bears (w.tree.form root)) :
    Binds w.strictly b (roots.mapM (Binding.script w.tree)) fun answers b' =>
      List.Forall₂ (ScriptBound w.tree b'.symbols) roots answers ∧
        (w.tree.Descending →
          nodes b'.symbols = nodes b.symbols ++ roots.flatMap (scriptNodes w.tree)) := by
  induction roots generalizing b with
  | nil => exact .pure kept ⟨.nil, by simp⟩
  | cons root roots ih =>
    rw [List.mapM_cons]
    refine .bind (binds_script root kept (has root (by simp))) fun answer b₁ _ kept₁ first => ?_
    refine .bind (ih kept₁ fun other ho => has other (by simp [ho])) ?_
    rintro answers b₂ adds kept₂ ⟨others, made⟩
    refine .pure kept₂ ⟨.cons (first.bound.grows (Adds.toGrows adds)) others, fun descending => ?_⟩
    rw [made descending, first.nodes descending]
    simp

/-- What binding a tree comes to. -/
structure TreeBound (t : Tree) (b : Binding) : Prop where
  sound : Sound t b.symbols
  adds : Adds t (fun _ => False) {} b.symbols
  scripts : ∃ answers, List.Forall₂ (ScriptBound t b.symbols) t.roots answers
  nodes : t.Descending → nodes b.symbols = t.roots.flatMap (scriptNodes t)

/-- What is so before anything is bound is still so when a tree is bound. Nothing is asked of the
tree: what is missing from it is a fault, and then there is no binding. -/
theorem Steps.treeBound (steps : Steps t I) (empty : I {}) (bound : Binding.ofTree t = .ok b) :
    TreeBound t b ∧ I b := by
  obtain ⟨⟨answers, b'⟩, run, done⟩ := exists_of_bind_eq_ok bound
  cases done
  have binds := binds_scripts (w := .lenient steps) (b := {}) t.roots
    ⟨.empty t, empty⟩ fun _ _ _ _ => trivial
  obtain ⟨adds, kept, all, made⟩ := binds.runs.of_ok run
  refine ⟨⟨kept.sound, adds, ⟨answers, all⟩, fun descending => (made descending).trans ?_⟩,
    kept.invariant⟩
  simp [Binding.nodes, SymbolTable.size, Setting.lenient]

theorem treeBound_ofTree (bound : ofTree t = .ok b) : TreeBound t b :=
  ((steps_true t).treeBound trivial bound).1

theorem Steps.ofTree (steps : Steps t I) (empty : I {}) (bound : Binding.ofTree t = .ok b) :
    Sound t b.symbols ∧ I b :=
  (steps.treeBound empty bound).imp_left TreeBound.sound

/-- The symbols of a tree that can be bound are sound. -/
theorem sound_of_ofTree (bound : ofTree t = .ok b) : Sound t b.symbols :=
  (treeBound_ofTree bound).sound

/-- All symbols of a tree that can be bound are furnished. -/
theorem furnished_ofTree (bound : ofTree t = .ok b) {symbol : Symbol}
    (hs : b.symbols.get? id = some symbol) : Furnished t b.symbols id symbol :=
  (treeBound_ofTree bound).adds.furnished (by simp [SymbolTable.get?]) hs not_false

end Trees

end Binding

end PapyrusAnalysis
