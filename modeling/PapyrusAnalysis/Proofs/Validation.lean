import PapyrusAnalysis.Proofs.Session.Inference
import PapyrusAnalysis.Proofs.Tree.Parents
import PapyrusAnalysis.Validation

/-!
# Validation in corresponding sessions

Validation in corresponding sessions reports the same, word by word. A walk goes to nodes of the
tree only, and the values of the arguments of a call lie below the call, so that it also comes to an
end.

## Main definitions

* `Call.Alike`: pairings of a call that differ in the numbers of parameters only.
* `Correspondence.checking`: validations that have come to the same report.
* `Correspondence.Reporting`: what makes validations in corresponding sessions end alike.
-/

namespace PapyrusAnalysis

/-! ## Arguments and parameters -/

namespace Call

/-- Parameters that differ in the numbers of their symbols only. -/
def Parameters (Q : SymbolId → SymbolId → Prop) (x y : Parameter) : Prop :=
  Q x.symbol y.symbol ∧ y.name = x.name ∧ y.isOptional = x.isOptional

/-- Pairings that differ in parameters only, with arguments of some kind. -/
inductive Alike (Q : SymbolId → SymbolId → Prop) (A : Argument → Prop) : Pairing → Pairing → Prop
  | passed {argument : Argument} {x y : Parameter} (ha : A argument) (h : Parameters Q x y) :
      Alike Q A (.passed argument x) (.passed argument y)
  | missing : Alike Q A .missing .missing
  | unknownName {argument : Argument} (name : String) (ha : A argument) :
      Alike Q A (.unknownName argument name) (.unknownName argument name)
  | reusedName {argument : Argument} (ha : A argument) :
      Alike Q A (.reusedName argument) (.reusedName argument)

variable {Q : SymbolId → SymbolId → Prop} {A : Argument → Prop}
  {xs ys queue queue' : List Parameter}

theorem parameterNamed_alike (h : List.Forall₂ (Parameters Q) xs ys) (name : String) :
    Option.Rel (Parameters Q) (parameterNamed xs name) (parameterNamed ys name) := by
  unfold parameterNamed
  have reversed := List.rel_reverse h
  generalize xs.reverse = xs at reversed ⊢
  generalize ys.reverse = ys at reversed ⊢
  induction reversed with
  | nil => exact .none
  | @cons x y xs ys head _ ih =>
    rw [List.find?_cons, List.find?_cons, head.2.1]
    split
    · exact .some head
    · exact ih

theorem pairRequired_alike (h : List.Forall₂ (Parameters Q) xs ys) {arguments : List Argument}
    (ha : ∀ argument ∈ arguments, A argument) :
    List.Forall₂ (Alike Q A) (pairRequired xs arguments) (pairRequired ys arguments) := by
  induction h generalizing arguments with
  | nil => exact .nil
  | cons head _ ih =>
    cases arguments with
    | nil => exact .cons .missing (ih (by simp))
    | cons argument rest =>
      exact .cons (.passed (ha _ (by simp)) head) (ih fun a hm => ha a (by simp [hm]))

theorem pairOptional_alike (h : List.Forall₂ (Parameters Q) xs ys)
    (hqueue : List.Forall₂ (Parameters Q) queue queue') (used : List String)
    {arguments : List Argument} (ha : ∀ argument ∈ arguments, A argument) :
    List.Forall₂ (Alike Q A) (pairOptional xs queue used arguments)
      (pairOptional ys queue' used arguments) := by
  induction arguments generalizing queue queue' used with
  | nil => cases queue <;> cases queue' <;> exact .nil
  | cons argument rest ih =>
    have first : A argument := ha _ (by simp)
    have ha' : ∀ a ∈ rest, A a := fun a hm => ha a (by simp [hm])
    unfold pairOptional
    cases argument.name with
    | none =>
      cases hqueue with
      | nil => exact ih .nil used ha'
      | cons head tail =>
        dsimp only
        rw [head.2.1]
        exact .cons (.passed first head) (ih tail _ ha')
    | some name =>
      dsimp only
      have found := parameterNamed_alike h name
      generalize parameterNamed xs name = x at found ⊢
      generalize parameterNamed ys name = y at found ⊢
      cases found with
      | none => exact .cons (.unknownName name first) (ih hqueue used ha')
      | some head =>
        dsimp only
        rw [head.2.1]
        split
        · exact .cons (.reusedName first) (ih hqueue used ha')
        · exact .cons (.passed first head) (ih hqueue _ ha')

/-- Parameters that are alike get the same arguments. -/
theorem pair_alike (h : List.Forall₂ (Parameters Q) xs ys) {arguments : List Argument}
    (ha : ∀ argument ∈ arguments, A argument) :
    List.Forall₂ (Alike Q A) (pair xs arguments) (pair ys arguments) := by
  have filtered : ∀ f : Bool → Bool, List.Forall₂ (Parameters Q)
      (xs.filter fun x => f x.isOptional) (ys.filter fun y => f y.isOptional) := by
    intro f
    induction h with
    | nil => exact .nil
    | @cons x y xs ys head _ ih =>
      rw [List.filter_cons, List.filter_cons, head.2.2]
      split
      · exact .cons head ih
      · exact ih
  have optional := filtered fun b => b
  have required := filtered not
  simp only [pair, List.partition_eq_filter_filter]
  have length := required.length_eq
  simp only [Function.comp_def]
  rw [length]
  exact List.rel_append (pairRequired_alike required ha)
    (pairOptional_alike optional optional [] fun a hm => ha a (List.mem_of_mem_drop hm))

end Call

/-! ## Questions and reports -/

namespace Correspondence

/-- Validations that have come to the same report in corresponding sessions. -/
def checking (R : Correspondence) : Coupling Progress where
  related p q := R.related p.session q.session ∧ p.report = q.report ∧ p.validated = q.validated
  grows p q := p.session.Follows q.session
  refl p := .refl p.session
  trans := .trans
  tolerates := R.tolerates

/-- What was found in the sessions of two validations. -/
abbrev Known (R : Correspondence) (a b : Option TypeId) (p q : Progress) : Prop :=
  R.Found a b p.session q.session

/-- What makes validations of a codebase in corresponding sessions end alike: also a node that
cannot be reported on is tolerated. -/
structure Reporting (R : Correspondence) (c : Codebase) : Prop extends R.Lawful c where
  measured : ∀ {id node}, c.tree.node? id = some node →
    node.range.start ≤ node.range.stop ∨
      R.tolerates (.reversedRange node.range.start node.range.stop)

namespace Reporting

variable {c : Codebase} {R : Correspondence} {p q : Progress} {α β : Type}

theorem ask_ok {x : Query α} {a : α} {s : Session} (h : x p.session = .ok (a, s)) :
    Check.ask x p = .ok (a, { p with session := s }) :=
  (bind_ok (x := get) rfl).trans (bind_ok (liftM_ok h p))

theorem ask_error {x : Query α} {e : Fault} (h : x p.session = .error e) :
    Check.ask x p = .error e :=
  (bind_ok (x := get) rfl).trans (bind_error (liftM_error h p))

/-- Questions that end alike also do so in validations. -/
theorem ask {x : Query α} {y : Query β} {post : α → β → Session → Session → Prop}
    (rel : R.checking.related p q) (h : Coupled R.coupling p.session q.session x y post) :
    Coupled R.checking p q (Check.ask x) (Check.ask y) fun a b p q =>
      post a b p.session q.session := by
  cases h with
  | done left right gs gt rel' holds =>
    exact .done (ask_ok left) (ask_ok right) gs gt ⟨rel', rel.2⟩ holds
  | fault left right tolerated => exact .fault (ask_error left) (ask_error right) tolerated
  | exhausted right tolerated => exact .exhausted (ask_error right) tolerated

theorem report (law : R.Reporting c) (rel : R.checking.related p q) {node : NodeId}
    (has : c.tree.Has node) (message : Message) (arguments : List String) :
    Coupled R.checking p q (Check.report c node message arguments)
      (Check.report c node message arguments) fun _ _ _ _ => True := by
  obtain ⟨n, hn⟩ := has.node?
  unfold Check.report
  refine .lift (Tree.range_eq_ok hn) ?_
  rcases Binding.about_eq n.range message arguments with ⟨d, hd, -⟩ | ⟨he, reversed⟩
  · refine .lift hd (.done rfl rfl (.refl _) (.refl _) ⟨rel.1, ?_, rel.2.2⟩ trivial)
    exact congrArg (· ++ [d]) rel.2.1
  · exact .fault (bind_error (liftM_error he p)) (bind_error (liftM_error he q))
      ((law.measured hn).resolve_left reversed)

theorem obstruct (law : R.Reporting c) (rel : R.checking.related p q) {node : NodeId}
    (has : c.tree.Has node) (obstacle : Obstacle) :
    Coupled R.checking p q (Check.obstruct c node obstacle) (Check.obstruct c node obstacle)
      fun a b _ _ => a = b :=
  .bind (law.report rel has _ _) fun _ _ _ _ _ _ rel' _ => .pure rel' rfl

theorem reject (law : R.Reporting c) (rel : R.checking.related p q) {node : NodeId}
    (has : c.tree.Has node) (message : Message) :
    Coupled R.checking p q (Check.reject c node message) (Check.reject c node message)
      fun a b _ _ => a = b :=
  .bind (law.report rel has _ _) fun _ _ _ _ _ _ rel' _ => .pure rel' rfl

theorem typeName (law : R.Reporting c) (rel : R.checking.related p q) {a b : TypeId}
    (hab : R.types p.session q.session a b) :
    Coupled R.checking p q (Check.typeName a) (Check.typeName b) fun x y _ _ => x = y := by
  obtain ⟨x, y, hx, hy, alike⟩ := law.info rel.1 hab
  have left : Query.typeInfo a p.session = .ok (x, p.session) :=
    liftM_ok (TypeTable.get_eq_ok hx) p.session
  have right : Query.typeInfo b q.session = .ok (y, q.session) :=
    liftM_ok (TypeTable.get_eq_ok hy) q.session
  have info : Coupled R.coupling p.session q.session (Query.typeInfo a) (Query.typeInfo b)
      fun x y _ _ => y.name = x.name :=
    .done left right (.refl _) (.refl _) rel.1 alike.name
  exact .bind (ask rel info) fun _ _ _ _ _ _ rel' same => .pure rel' same.symm

/-! ## Types of values -/

theorem fits (law : R.Reporting c) (rel : R.checking.related p q) {node : NodeId}
    (has : c.tree.Has node) (message : Message) {a b a' b' : Option TypeId}
    (place : R.Known a b p q) (value : R.Known a' b' p q) :
    Coupled R.checking p q (Check.fits c node message a a') (Check.fits c node message b b')
      fun _ _ _ _ => True := by
  cases place with
  | none => exact .pure rel trivial
  | @some a b hab =>
    cases value with
    | none => exact .pure rel trivial
    | @some a' b' hab' =>
      unfold Check.fits
      refine .bind (ask rel (law.isAssignable rel.1 hab hab')) ?_
      rintro answer _ p₁ q₁ gp gq rel₁ rfl
      cases answer with
      | true => exact .pure rel₁ trivial
      | false =>
        refine .bind (law.typeName rel₁ (law.types_mono hab' gp.grown gq.grown)) ?_
        rintro name _ p₂ q₂ gp' gq' rel₂ rfl
        refine .bind (law.typeName rel₂
          (law.types_mono hab (gp.trans gp').grown (gq.trans gq').grown)) ?_
        rintro name' _ p₃ q₃ - - rel₃ rfl
        exact law.report rel₃ has message _

theorem operatorMismatch (law : R.Reporting c) (rel : R.checking.related p q) {node : NodeId}
    (has : c.tree.Has node) (label : String) {a b a' b' : Option TypeId}
    (left : R.Known a b p q) (right : R.Known a' b' p q) :
    Coupled R.checking p q (Check.operatorMismatch c node label a a')
      (Check.operatorMismatch c node label b b') fun _ _ _ _ => True := by
  cases left with
  | none => exact .pure rel trivial
  | @some a b hab =>
    cases right with
    | none => exact .pure rel trivial
    | @some a' b' hab' =>
      unfold Check.operatorMismatch
      refine .bind (law.typeName rel hab) ?_
      rintro name _ p₁ q₁ gp gq rel₁ rfl
      refine .bind (law.typeName rel₁ (law.types_mono hab' gp.grown gq.grown)) ?_
      rintro name' _ p₂ q₂ - - rel₂ rfl
      exact law.report rel₂ has _ _

theorem known_mono (law : R.Reporting c) {p' q' : Progress} {a b : Option TypeId}
    (h : R.Known a b p q) (gp : R.checking.grows p p') (gq : R.checking.grows q q') :
    R.Known a b p' q' :=
  Option.Rel.imp h fun _ _ hab => law.types_mono hab gp.grown gq.grown

theorem isNumeric (law : R.Reporting c) {s t : Session} (rel : R.related s t) {a b : TypeId}
    (hab : R.types s t a b) : TypeTable.isNumeric b = TypeTable.isNumeric a := by
  simp only [TypeTable.isNumeric, law.eq_intrinsic rel hab]

theorem binaryAccepts (law : R.Reporting c) {s t : Session} (rel : R.related s t)
    (operator : BinaryOperator) {a b a' b' : Option TypeId} (left : R.Found a b s t)
    (right : R.Found a' b' s t) : operator.accepts b b' = operator.accepts a a' := by
  cases left with
  | none => cases right <;> rfl
  | some hab =>
    cases right with
    | none => rfl
    | some hab' =>
      simp only [BinaryOperator.accepts, law.isNumeric rel hab, law.isNumeric rel hab',
        law.eq_intrinsic rel hab, law.eq_intrinsic rel hab']

theorem assignmentAccepts (law : R.Reporting c) {s t : Session} (rel : R.related s t)
    (operator : AssignmentOperator) {a b a' b' : Option TypeId} (left : R.Found a b s t)
    (right : R.Found a' b' s t) : operator.accepts b b' = operator.accepts a a' := by
  cases left with
  | none => cases right <;> rfl
  | some hab =>
    cases right with
    | none => rfl
    | some hab' =>
      simp only [AssignmentOperator.accepts, law.isNumeric rel hab, law.isNumeric rel hab',
        law.eq_intrinsic rel hab]

theorem initialValue (law : R.Reporting c) (rel : R.checking.related p q) {typeName value : NodeId}
    (hasType : c.tree.Has typeName) (hasValue : c.tree.Has value) :
    Coupled R.checking p q (Check.initialValue c typeName value)
      (Check.initialValue c typeName value) fun a b _ _ => a = b := by
  unfold Check.initialValue
  refine .bind (ask rel (law.typeOfTypeName rel.1 hasType)) ?_
  intro a b p₁ q₁ _ _ rel₁ place
  refine .bind (ask rel₁ (law.typeOf rel₁.1 hasValue)) ?_
  intro a' b' p₂ q₂ gp gq rel₂ type
  refine .bind (law.fits rel₂ hasValue _ (law.known_mono place gp gq) type) ?_
  intro _ _ p₃ q₃ _ _ rel₃ _
  exact .pure rel₃ rfl

theorem operands (law : R.Reporting c) (rel : R.checking.related p q) {node left right : NodeId}
    (has : c.tree.Has node) (hasLeft : c.tree.Has left) (hasRight : c.tree.Has right)
    (operator : BinaryOperator) :
    Coupled R.checking p q (Check.operands c node left operator right)
      (Check.operands c node left operator right) fun a b _ _ => a = b := by
  unfold Check.operands
  refine .bind (ask rel (law.typeOf rel.1 hasLeft)) ?_
  intro a b p₁ q₁ _ _ rel₁ found
  refine .bind (ask rel₁ (law.typeOf rel₁.1 hasRight)) ?_
  intro a' b' p₂ q₂ gp gq rel₂ found'
  have earlier := law.known_mono found gp gq
  rw [law.binaryAccepts rel₂.1 operator earlier found']
  split
  · exact .pure rel₂ rfl
  · refine .bind (law.operatorMismatch rel₂ has _ earlier found') ?_
    intro _ _ p₃ q₃ _ _ rel₃ _
    exact .pure rel₃ rfl

/-! ## Names -/

theorem nameOfType (law : R.Reporting c) (rel : R.checking.related p q) {node : NodeId}
    (has : c.tree.Has node) :
    Coupled R.checking p q (Check.nameOfType c node) (Check.nameOfType c node)
      fun a b _ _ => a = b := by
  obtain ⟨name, hname⟩ := Tree.nameOf_eq_ok law.codebase.descending has
  unfold Check.nameOfType
  refine .bind (ask rel (law.typeOfTypeName rel.1 has)) ?_
  intro a b p₁ q₁ _ _ rel₁ found
  have same : b.isNone = a.isNone := by cases found <;> rfl
  rw [same]
  dsimp only
  split
  · refine .lift hname (.bind (law.report rel₁ has _ _) ?_)
    intro _ _ p₂ q₂ _ _ rel₂ _
    exact .pure rel₂ rfl
  · exact .pure rel₁ rfl

theorem isBlockScoped (law : R.Reporting c) {s t : Session} (rel : R.related s t) {a b : SymbolId}
    (hab : R.symbols s t a b) :
    Coupled R.coupling s t (Query.isBlockScoped c a) (Query.isBlockScoped c b)
      fun x y _ _ => x = y := by
  unfold Query.isBlockScoped
  refine law.symbol? rel hab ?_ ?_
  · exact .pure rel rfl
  intro x y hx _ alike
  rw [Option.bind_some, Option.bind_some, alike.declaration]
  rcases Inference.declaration_cases law.toLawful rel hx with ⟨node, hd, has⟩ | ⟨hd, -⟩
  · obtain ⟨n, hn⟩ := has.node?
    rw [hd]
    refine .lift (Tree.form_eq_ok hn) ?_
    split <;> exact .pure rel rfl
  · rw [hd]
    exact .pure rel rfl

/-- Reading corresponding symbols in validations. -/
theorem askSymbol (law : R.Reporting c) (rel : R.checking.related p q) {a b : SymbolId}
    (hab : R.symbols p.session q.session a b) {f : Option Symbol → Check α}
    {g : Option Symbol → Check β} {post : α → β → Progress → Progress → Prop}
    (none : Coupled R.checking p q (f none) (g none) post)
    (some : ∀ x y, p.session.symbol? c a = some x → R.symbolsAlike p.session q.session x y →
      Coupled R.checking p q (f (some x)) (g (some y)) post) :
    Coupled R.checking p q (Check.ask (Query.symbol? c a) >>= f)
      (Check.ask (Query.symbol? c b) >>= g) post := by
  refine .known (ask_ok rfl) (ask_ok rfl) ?_
  have alike := law.symbol rel.1 hab
  generalize p.session.symbol? c a = x at alike some ⊢
  generalize q.session.symbol? c b = y at alike ⊢
  cases alike with
  | none => exact none
  | some h => exact some _ _ rfl h

theorem isDeclaredAfter (law : R.Reporting c) (rel : R.checking.related p q) {a b : SymbolId}
    (hab : R.symbols p.session q.session a b) {node : NodeId} (has : c.tree.Has node) :
    Coupled R.checking p q (Check.isDeclaredAfter c a node) (Check.isDeclaredAfter c b node)
      fun x y _ _ => x = y := by
  obtain ⟨n, hn⟩ := has.node?
  unfold Check.isDeclaredAfter
  refine law.askSymbol rel hab ?_ ?_
  · exact .pure rel rfl
  intro x y hx alike
  dsimp only
  rw [alike.kind, alike.declaration]
  split
  · refine .bind (ask rel (law.isBlockScoped rel.1 hab)) ?_
    rintro answer _ p₁ q₁ gp gq rel₁ rfl
    split
    · rcases Inference.declaration_cases law.toLawful rel.1 hx with
        ⟨declaration, hd, hasD⟩ | ⟨hd, -⟩
      · obtain ⟨m, hm⟩ := hasD.node?
        rw [hd]
        exact .lift (Tree.range_eq_ok hn) (.lift (Tree.range_eq_ok hm) (.pure rel₁ rfl))
      · rw [hd]
        exact .pure rel₁ rfl
    · exact .pure rel₁ rfl
  · exact .pure rel rfl

theorem phraseAround_eq_ok (law : R.Reporting c) {node : NodeId} (has : c.tree.Has node) :
    ∃ form, Check.phraseAround c node = .ok form := by
  obtain ⟨n, hn⟩ := has.node?
  rw [Check.phraseAround, Tree.parent_eq_ok hn]
  cases hp : n.parent with
  | none => exact ⟨none, rfl⟩
  | some parent =>
    obtain ⟨-, above, ha, -⟩ := law.codebase.grown.parent hn hp
    exact ⟨some above.form, by simp only [bind, Except.bind, Tree.form_eq_ok ha]; rfl⟩

theorem identifier (law : R.Reporting c) (rel : R.checking.related p q) {node : NodeId}
    (has : c.tree.Has node) (name : String) :
    Coupled R.checking p q (Check.identifier c node name) (Check.identifier c node name)
      fun a b _ _ => a = b := by
  obtain ⟨around, haround⟩ := law.phraseAround_eq_ok has
  unfold Check.identifier
  refine .lift haround ?_
  split
  · exact .pure rel rfl
  refine .bind (ask rel (law.symbolsFor rel.1 has)) ?_
  rintro ⟨_, xs⟩ ⟨_, ys⟩ p₁ q₁ - - rel₁ ⟨-, found⟩
  dsimp only at found ⊢
  cases found with
  | nil =>
    dsimp only
    split
    · exact .pure rel₁ rfl
    · refine .bind (law.report rel₁ has _ _) ?_
      intro _ _ p₂ q₂ _ _ rel₂ _
      exact .pure rel₂ rfl
  | cons head _ =>
    refine .bind (law.isDeclaredAfter rel₁ head has) ?_
    rintro answer _ p₂ q₂ - - rel₂ rfl
    split
    · refine .bind (law.report rel₂ has _ _) ?_
      intro _ _ p₃ q₃ _ _ rel₃ _
      exact .pure rel₃ rfl
    · exact .pure rel₂ rfl

/-! ## Assignments -/

theorem isWritable (law : R.Reporting c) {s t : Session} (rel : R.related s t) {node : NodeId}
    (has : c.tree.Has node) :
    Coupled R.coupling s t (Query.isWritable c node) (Query.isWritable c node)
      fun x y _ _ => x = y := by
  unfold Query.isWritable
  refine .bind (law.symbolsFor rel has) ?_
  rintro ⟨_, xs⟩ ⟨_, ys⟩ s' t' - - rel' ⟨-, found⟩
  dsimp only at found ⊢
  cases found with
  | nil => exact .pure rel' rfl
  | cons head _ =>
    refine law.symbol? rel' head ?_ ?_
    · exact .pure rel' rfl
    · intro x y _ _ alike
      refine .pure rel' ?_
      simp only [Option.any_some, Symbol.isWritable, Symbol.isAutoReadOnly, Symbol.isConst,
        alike.kind, alike.traits]

theorem sides (law : R.Reporting c) (rel : R.checking.related p q) {node left right : NodeId}
    (has : c.tree.Has node) (hasLeft : c.tree.Has left) (hasRight : c.tree.Has right)
    (operator : AssignmentOperator) :
    Coupled R.checking p q (Check.sides c node left operator right)
      (Check.sides c node left operator right) fun a b _ _ => a = b := by
  unfold Check.sides
  refine .bind (ask rel (law.typeOf rel.1 hasLeft)) ?_
  intro a b p₁ q₁ _ _ rel₁ found
  refine .bind (ask rel₁ (law.typeOf rel₁.1 hasRight)) ?_
  intro a' b' p₂ q₂ gp gq rel₂ found'
  have earlier := law.known_mono found gp gq
  dsimp only
  split
  · refine .bind (law.fits rel₂ hasRight _ earlier found') ?_
    intro _ _ p₃ q₃ _ _ rel₃ _
    exact .pure rel₃ rfl
  · rw [law.assignmentAccepts rel₂.1 operator earlier found']
    split
    · exact .pure rel₂ rfl
    · refine .bind (law.operatorMismatch rel₂ has _ earlier found') ?_
      intro _ _ p₃ q₃ _ _ rel₃ _
      exact .pure rel₃ rfl

theorem referenceName_eq_ok (law : R.Reporting c) {node : NodeId} (has : c.tree.Has node) :
    ∃ name, c.tree.referenceName node = .ok name ∧ ∀ id, name = some id → c.tree.Has id := by
  obtain ⟨n, hn⟩ := has.node?
  rw [Tree.referenceName, Tree.form_eq_ok hn]
  simp only [bind, Except.bind, pure, Except.pure]
  split
  · rename_i identifier hf
    refine ⟨_, rfl, ?_⟩
    rintro id ⟨⟩
    exact law.codebase.descending.has hn (by simp [hf, Form.children])
  · exact ⟨none, rfl, Tree.has_of_none⟩

theorem assignedName_eq_ok (law : R.Reporting c) {node : NodeId} (has : c.tree.Has node) :
    ∃ name, c.tree.assignedName node = .ok name ∧ ∀ id, name = some id → c.tree.Has id := by
  obtain ⟨n, hn⟩ := has.node?
  rw [Tree.assignedName, Tree.form_eq_ok hn]
  simp only [bind, Except.bind, pure, Except.pure]
  split
  · rename_i base access hf
    exact law.referenceName_eq_ok (law.codebase.descending.has hn (by simp [hf, Form.children]))
  · rename_i identifier hf
    refine ⟨_, rfl, ?_⟩
    rintro id ⟨⟩
    exact law.codebase.descending.has hn (by simp [hf, Form.children])
  · exact ⟨none, rfl, Tree.has_of_none⟩

theorem isAssignableForm_eq_ok (law : R.Reporting c) {node : NodeId} (has : c.tree.Has node) :
    ∃ answer, c.tree.isAssignable node = .ok answer := by
  obtain ⟨n, hn⟩ := has.node?
  rw [Tree.isAssignable, Tree.form_eq_ok hn]
  simp only [bind, Except.bind, pure, Except.pure]
  split
  · exact ⟨true, rfl⟩
  · exact ⟨true, rfl⟩
  · rename_i base access hf
    obtain ⟨name, hname, -⟩ := law.referenceName_eq_ok
      (law.codebase.descending.has hn (by simp [hf, Form.children]) : c.tree.Has access)
    rw [hname]
    exact ⟨_, rfl⟩
  · exact ⟨false, rfl⟩

theorem isWritablePlace (law : R.Reporting c) (rel : R.checking.related p q) {place : NodeId}
    (has : c.tree.Has place) :
    Coupled R.checking p q (Check.isWritablePlace c place) (Check.isWritablePlace c place)
      fun a b _ _ => a = b := by
  obtain ⟨name, hname, hasName⟩ := law.assignedName_eq_ok has
  unfold Check.isWritablePlace
  refine .lift hname ?_
  cases name with
  | none => exact .pure rel rfl
  | some name => exact ask rel (law.isWritable rel.1 (hasName name rfl))

theorem assignment (law : R.Reporting c) (rel : R.checking.related p q) {node : NodeId}
    {left right : Option NodeId} (has : c.tree.Has node)
    (hasLeft : ∀ id, left = some id → c.tree.Has id)
    (hasRight : ∀ id, right = some id → c.tree.Has id) (operator : AssignmentOperator) :
    Coupled R.checking p q (Check.assignment c node left operator right)
      (Check.assignment c node left operator right) fun a b _ _ => a = b := by
  unfold Check.assignment
  cases left with
  | none => exact law.reject rel has _
  | some place =>
    obtain ⟨answer, hanswer⟩ := law.isAssignableForm_eq_ok (hasLeft place rfl)
    refine .lift hanswer ?_
    split
    · exact law.reject rel has _
    refine .bind (law.isWritablePlace rel (hasLeft place rfl)) ?_
    rintro writable _ p₁ q₁ - - rel₁ rfl
    split
    · exact law.reject rel₁ has _
    cases right with
    | none => exact law.reject rel₁ has _
    | some value => exact law.sides rel₁ has (hasLeft place rfl) (hasRight value rfl) operator

/-! ## Calls -/

/-- What is known about the parameters of corresponding symbols. -/
inductive ParametersFound (Q : SymbolId → SymbolId → Prop) :
    Option (Except Obstacle (List Parameter)) → Option (Except Obstacle (List Parameter)) → Prop
  | none : ParametersFound Q none none
  | error (obstacle : Obstacle) :
      ParametersFound Q (some (.error obstacle)) (some (.error obstacle))
  | ok {xs ys : List Parameter} (h : List.Forall₂ (Call.Parameters Q) xs ys) :
      ParametersFound Q (some (.ok xs)) (some (.ok ys))

theorem parametersOf (law : R.Reporting c) (rel : R.checking.related p q) {a b : SymbolId}
    (hab : R.symbols p.session q.session a b) :
    Coupled R.checking p q (Check.parametersOf c a) (Check.parametersOf c b)
      fun x y p q => ParametersFound (R.symbols p.session q.session) x y := by
  unfold Check.parametersOf
  refine law.askSymbol rel hab ?_ ?_
  · exact .pure rel .none
  intro x y hx alike
  dsimp only
  rw [alike.kind, alike.name]
  split
  · refine .get (.pure rel (.ok (List.rel_map ?_ alike.parameters)))
    intro a b hab
    have found := law.symbol rel.1 hab
    dsimp only
    generalize p.session.symbol? c a = x at found ⊢
    generalize q.session.symbol? c b = y at found ⊢
    cases found with
    | none => exact ⟨hab, rfl, rfl⟩
    | some alike =>
      refine ⟨hab, ?_, ?_⟩
      · simp only [Parameter.ofSymbol, alike.name]
      · simp only [Parameter.ofSymbol, Symbol.isOptional, alike.traits]
  · exact .pure rel (.error _)

/-- The arguments of a call are parts of it, and their values lie below them. -/
theorem argumentsOf_eq_ok (law : R.Reporting c) {nodes : List NodeId}
    (has : ∀ node ∈ nodes, c.tree.Has node) :
    ∃ answer, Check.argumentsOf c nodes = .ok answer ∧
      ∀ arguments, answer = .ok arguments → ∀ argument ∈ arguments, argument.node ∈ nodes ∧
        argument.value.index < argument.node.index := by
  induction nodes with
  | nil => exact ⟨_, rfl, by rintro _ ⟨⟩; simp⟩
  | cons node rest ih =>
    obtain ⟨n, hn⟩ := (has node (by simp)).node?
    obtain ⟨others, hothers, inside⟩ := ih fun m hm => has m (by simp [hm])
    rw [Check.argumentsOf, Tree.form_eq_ok hn, hothers]
    simp only [bind, Except.bind]
    split
    · rename_i identifier value hf
      have hvalue : value.index < node.index :=
        law.codebase.descending node n hn value (by simp [hf, Form.children])
      have extended : ∀ name : Option String, ∀ arguments,
          others.map ((⟨node, name, value⟩ : Argument) :: ·) = .ok arguments →
          ∀ argument ∈ arguments, argument.node ∈ node :: rest ∧
            argument.value.index < argument.node.index := by
        intro name arguments h argument hm
        cases others with
        | error => cases h
        | ok arguments' =>
          cases h
          rcases List.mem_cons.1 hm with rfl | hm
          · exact ⟨by simp, hvalue⟩
          · obtain ⟨hnode, hlt⟩ := inside _ rfl _ hm
            exact ⟨by simp [hnode], hlt⟩
      cases identifier with
      | none => exact ⟨_, rfl, extended none⟩
      | some identifier =>
        obtain ⟨name, hname⟩ := Tree.nameOf_eq_ok law.codebase.descending
          (law.codebase.descending.has hn (by simp [hf, Form.children]) : c.tree.Has identifier)
        dsimp only
        rw [hname]
        exact ⟨_, rfl, extended name⟩
    · exact ⟨_, rfl, fun _ h => by cases h⟩

theorem parameterType (law : R.Reporting c) {s t : Session} (rel : R.related s t) {a b : SymbolId}
    (hab : R.symbols s t a b) :
    Coupled R.coupling s t (Check.parameterType c a) (Check.parameterType c b) R.Found := by
  unfold Check.parameterType
  refine law.symbol? rel hab (.pure rel .none) ?_
  intro x y hx hy alike
  dsimp only
  rw [alike.declaration]
  rcases Inference.declaration_cases law.toLawful rel hx with ⟨node, hd, has⟩ | ⟨hd, -⟩
  · obtain ⟨n, hn⟩ := has.node?
    have form (s : Session) : (some <$> (liftM (c.tree.form node) : Query Form)) s =
        .ok (some n.form, s) := by
      rw [map_eq_pure_bind, bind_ok (liftM_ok (Tree.form_eq_ok hn) s)]
      rfl
    rw [hd]
    refine .known (form s) (form t) ?_
    split
    · rename_i typeName _ _ _ hf
      have hf : n.form = _ := Option.some.inj hf
      exact law.typeOfTypeName rel (law.codebase.descending.has hn (by simp [hf, Form.children]))
    · exact law.declaredType rel hab
  · rw [hd]
    exact law.declaredType rel hab

/-- A validation of values that is coupled with itself, as far as it comes. -/
def Below (R : Correspondence) (c : Codebase) (below : NodeId → Check Unit) (limit : Nat) : Prop :=
  ∀ {p q : Progress}, R.checking.related p q → ∀ {value : NodeId}, c.tree.Has value →
    value.index < limit → Coupled R.checking p q (below value) (below value) fun _ _ _ _ => True

variable {below : NodeId → Check Unit} {limit : Nat}

theorem passed (law : R.Reporting c) (rel : R.checking.related p q)
    (hbelow : Below R c below limit) {argument : Argument} {x y : Parameter}
    (has : c.tree.Has argument.node) (hasValue : c.tree.Has argument.value)
    (hlt : argument.value.index < limit)
    (alike : Call.Parameters (R.symbols p.session q.session) x y) :
    Coupled R.checking p q (Check.passed c below argument x) (Check.passed c below argument y)
      fun _ _ _ _ => True := by
  unfold Check.passed
  refine .bind (hbelow rel hasValue hlt) ?_
  intro _ _ p₁ q₁ gp gq rel₁ _
  refine .bind (ask rel₁ (law.parameterType rel₁.1 (law.symbols_mono alike.1 gp.grown gq.grown))) ?_
  intro place place' p₂ q₂ _ _ rel₂ hplace
  refine .bind (ask rel₂ (law.typeOf rel₂.1 hasValue)) ?_
  intro value value' p₃ q₃ gp gq rel₃ hvalue
  exact law.fits rel₃ has _ (law.known_mono hplace gp gq) hvalue

theorem pairing (law : R.Reporting c) (rel : R.checking.related p q)
    (hbelow : Below R c below limit) {node : NodeId} (has : c.tree.Has node) {x y : Pairing}
    (alike : Call.Alike (R.symbols p.session q.session) (fun argument => c.tree.Has argument.node ∧
      c.tree.Has argument.value ∧ argument.value.index < limit) x y) :
    Coupled R.checking p q (Check.pairing c below node x) (Check.pairing c below node y)
      fun _ _ _ _ => True := by
  cases alike with
  | passed ha h => exact law.passed rel hbelow ha.1 ha.2.1 ha.2.2 h
  | missing => exact law.report rel has _ _
  | unknownName name ha => exact law.report rel ha.1 _ _
  | reusedName ha => exact law.report rel ha.1 _ _

theorem alike_mono (law : R.Reporting c) {p' q' : Progress} {A : Argument → Prop} {x y : Pairing}
    (h : Call.Alike (R.symbols p.session q.session) A x y) (gp : R.checking.grows p p')
    (gq : R.checking.grows q q') : Call.Alike (R.symbols p'.session q'.session) A x y := by
  cases h with
  | passed ha h => exact .passed ha ⟨law.symbols_mono h.1 gp.grown gq.grown, h.2⟩
  | missing => exact .missing
  | unknownName name ha => exact .unknownName name ha
  | reusedName ha => exact .reusedName ha

theorem arguments (law : R.Reporting c) (rel : R.checking.related p q) {node : NodeId}
    (has : c.tree.Has node) (hbelow : Below R c below node.index) {nodes : List NodeId}
    (inside : ∀ m ∈ nodes, c.tree.Has m ∧ m.index < node.index) {xs ys : List Parameter}
    (alike : List.Forall₂ (Call.Parameters (R.symbols p.session q.session)) xs ys) :
    Coupled R.checking p q (Check.arguments c below node xs nodes)
      (Check.arguments c below node ys nodes) fun a b _ _ => a = b := by
  unfold Check.arguments
  rw [alike.length_eq]
  split
  · exact law.reject rel has _
  obtain ⟨answer, hanswer, parts⟩ := law.argumentsOf_eq_ok fun m hm => (inside m hm).1
  refine .lift hanswer ?_
  cases answer with
  | error obstacle => exact law.obstruct rel has obstacle
  | ok arguments =>
    have placed : ∀ argument ∈ arguments, c.tree.Has argument.node ∧ c.tree.Has argument.value ∧
        argument.value.index < node.index := by
      intro argument hm
      obtain ⟨hnode, hlt⟩ := parts arguments rfl argument hm
      obtain ⟨hasNode, before⟩ := inside _ hnode
      exact ⟨hasNode, Nat.lt_trans hlt hasNode, Nat.lt_trans hlt before⟩
    refine .bind (.forM (R := fun p q => Call.Alike (R.symbols p.session q.session) _)
      (fun gp gq _ _ _ h => law.alike_mono h gp gq) rel (Call.pair_alike alike placed) ?_) ?_
    · intro x y p' q' _ _ _ rel' h
      exact law.pairing rel' hbelow has h
    · intro _ _ _ _ _ _ rel' _
      exact .pure rel' rfl

theorem call (law : R.Reporting c) (rel : R.checking.related p q) {node identifier : NodeId}
    (has : c.tree.Has node) (hasIdentifier : c.tree.Has identifier)
    (hbelow : Below R c below node.index) {nodes : List NodeId}
    (inside : ∀ m ∈ nodes, c.tree.Has m ∧ m.index < node.index) :
    Coupled R.checking p q (Check.call c below node identifier nodes)
      (Check.call c below node identifier nodes) fun a b _ _ => a = b := by
  unfold Check.call
  refine .bind (ask rel (law.symbolsFor rel.1 hasIdentifier)) ?_
  rintro ⟨_, xs⟩ ⟨_, ys⟩ p₁ q₁ - - rel₁ ⟨-, found⟩
  dsimp only at found ⊢
  cases found with
  | nil => exact .pure rel₁ rfl
  | cons head _ =>
    refine .bind (law.parametersOf rel₁ head) ?_
    intro x y p₂ q₂ _ _ rel₂ parameters
    cases parameters with
    | none => exact .pure rel₂ rfl
    | error obstacle => exact law.obstruct rel₂ has obstacle
    | ok alike => exact law.arguments rel₂ has hbelow inside alike

/-! ## Nodes and trees -/

theorem phrase (law : R.Reporting c) (rel : R.checking.related p q) {node : NodeId}
    (has : c.tree.Has node) (hbelow : Below R c below node.index) :
    Coupled R.checking p q (Check.phrase c below node) (Check.phrase c below node)
      fun a b _ _ => a = b := by
  obtain ⟨n, hn⟩ := has.node?
  have part : ∀ {m}, m ∈ n.form.children → c.tree.Has m := law.codebase.descending.has hn
  unfold Check.phrase
  refine .lift (Tree.form_eq_ok hn) ?_
  cases hf : n.form with
  | declaration typeName identifier initial =>
    cases initial with
    | none => exact .pure rel rfl
    | some value =>
      exact law.initialValue rel (part (by simp [hf, Form.children]))
        (part (by simp [hf, Form.children]))
  | typeName => exact law.nameOfType rel has
  | identifier name => exact law.identifier rel has name
  | binary left operator right =>
    exact law.operands rel has (part (by simp [hf, Form.children]))
      (part (by simp [hf, Form.children])) operator
  | assignment left operator right =>
    exact law.assignment rel has (by rintro id rfl; exact part (by simp [hf, Form.children]))
      (by rintro id rfl; exact part (by simp [hf, Form.children])) operator
  | call identifier args =>
    refine law.call rel has (part (by simp [hf, Form.children])) hbelow ?_
    intro m hm
    have child : m ∈ n.form.children := by simp [hf, Form.children, hm]
    exact ⟨part child, law.codebase.descending node n hn m child⟩
  | _ => exact .pure rel rfl

theorem node (law : R.Reporting c) (rel : R.checking.related p q) {node : NodeId}
    (has : c.tree.Has node) (hbelow : Below R c below node.index) :
    Coupled R.checking p q (Check.node c below node) (Check.node c below node)
      fun a b _ _ => a = b := by
  unfold Check.node
  have noted : R.checking.related { p with validated := node :: p.validated }
      { q with validated := node :: q.validated } := ⟨rel.1, rel.2.1, by simp [rel.2.2]⟩
  have visit : Coupled R.checking p q
      (modify fun p => { p with validated := node :: p.validated })
      (modify fun p => { p with validated := node :: p.validated }) fun _ _ _ _ => True :=
    .done rfl rfl (.refl _) (.refl _) noted trivial
  refine .bind visit ?_
  intro _ _ p₁ q₁ _ _ rel₁ _
  exact law.phrase rel₁ has hbelow

/-- Walking below a node, where visits of nodes at and below it are coupled. -/
theorem walkWithin (law : R.Reporting c) {visit : NodeId → Check Step}
    (rel : R.checking.related p q)
    {depth : Nat} {root : NodeId} (has : c.tree.Has root) (enough : root.index < depth)
    (hvisit : ∀ {p q}, R.checking.related p q → ∀ {id}, c.tree.Has id → id.index ≤ root.index →
      Coupled R.checking p q (visit id) (visit id) fun a b _ _ => a = b) :
    Coupled R.checking p q (c.tree.walkWithin visit depth root)
      (c.tree.walkWithin visit depth root) fun _ _ _ _ => True := by
  induction depth generalizing root p q with
  | zero => omega
  | succ depth ih =>
    obtain ⟨n, hn⟩ := has.node?
    rw [Tree.walkWithin]
    refine .bind (hvisit rel has Nat.le.refl) ?_
    rintro step _ p₁ q₁ - - rel₁ rfl
    cases step with
    | skip => exact .pure rel₁ trivial
    | descend =>
      refine .lift (Tree.form_eq_ok hn) ?_
      refine .forM (R := fun _ _ => Eq) (fun _ _ _ _ _ h => h) rel₁
        (List.forall₂_same.2 (by simp)) ?_
      rintro child _ p₂ q₂ hm - - rel₂ rfl
      have hlt := law.codebase.descending root n hn child hm
      exact ih rel₂ (law.codebase.descending.has hn hm) (by omega) fun rel' _ has' hle =>
        hvisit rel' has' (by omega)

/-- The depth to which calls are followed is the number of a node at most. -/
theorem within (law : R.Reporting c) {depth : Nat} (rel : R.checking.related p q) {root : NodeId}
    (has : c.tree.Has root) (enough : root.index < depth) :
    Coupled R.checking p q (Check.within c depth root) (Check.within c depth root)
      fun _ _ _ _ => True := by
  induction depth generalizing root p q with
  | zero => omega
  | succ depth ih =>
    rw [Check.within, Tree.walk_eq law.codebase.descending has]
    refine law.walkWithin rel has has ?_
    intro p' q' rel' id has' hle
    exact law.node rel' has' fun rel'' value hasValue hlt => ih rel'' hasValue (by omega)

/-- Validation reports the same in corresponding sessions. -/
theorem validate (law : R.Reporting c) {s t : Session} (rel : R.related s t) {root : NodeId}
    (has : c.tree.Has root) :
    Coupled R.coupling s t (Query.validate c root) (Query.validate c root)
      fun a b _ _ => a = b := by
  have coupled := law.within (p := { session := s }) (q := { session := t }) ⟨rel, rfl, rfl⟩ has
    (Nat.lt_succ_of_lt has)
  unfold Query.validate
  refine .get ?_
  cases coupled with
  | done left right gs gt rel' _ =>
    exact .done (bind_ok (liftM_ok left s)) (bind_ok (liftM_ok right t)) gs gt rel'.1 rel'.2.1
  | fault left right tolerated =>
    exact .fault (bind_error (liftM_error left s)) (bind_error (liftM_error right t)) tolerated
  | exhausted right tolerated => exact .exhausted (bind_error (liftM_error right t)) tolerated

end Reporting

end Correspondence

end PapyrusAnalysis
