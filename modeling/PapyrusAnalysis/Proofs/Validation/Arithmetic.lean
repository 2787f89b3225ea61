import PapyrusAnalysis.Proofs.Validation.Operators

/-!
# Arithmetic with constants

The type of constants that are put together by arithmetic is found without looking anything up. If
validation objects to none of the operators, the type says which constants occur: that of texts if
there is a text, else that of fractions if there is one, else that of integers.

## Main definitions

* `Tree.Arithmetic`: an expression that puts constants together.
* `Intrinsic.Reflects`: a type that says which constants occur.
* `Inference.HasKind`: a node whose type is found without making anything.
-/

namespace PapyrusAnalysis

/-- Whether a constant is a number or a text. -/
def Literal.isOperand : Literal → Bool
  | .int _ | .hex _ | .float _ | .string _ => true
  | .none | .bool _ => false

/-- A node puts some constants together by arithmetic. They are given from left to right. -/
inductive Tree.Arithmetic (t : Tree) : NodeId → List Literal → Prop
  | literal {node : NodeId} {value : Literal} (form : t.form node = .ok (.literal value))
      (operand : value.isOperand) : Arithmetic t node [value]
  | expression {node inner : NodeId} {literals : List Literal}
      (form : t.form node = .ok (.literalExpression inner)) (h : Arithmetic t inner literals) :
      Arithmetic t node literals
  | negate {node inner : NodeId} {literals : List Literal}
      (form : t.form node = .ok (.unary .negate inner)) (h : Arithmetic t inner literals) :
      Arithmetic t node literals
  | binary {node left right : NodeId} {operator : BinaryOperator} {lefts rights : List Literal}
      (form : t.form node = .ok (.binary left operator right))
      (arithmetic : Inference.isLogical operator = false) (hl : Arithmetic t left lefts)
      (hr : Arithmetic t right rights) : Arithmetic t node (lefts ++ rights)

/-! ## Kinds of operands -/

namespace Intrinsic

theorem typeId_inj {a b : Intrinsic} : a.typeId = b.typeId ↔ a = b := by
  cases a <;> cases b <;> simp [typeId]

/-- A type says which constants occur. -/
structure Reflects (kind : Intrinsic) (literals : List Literal) : Prop where
  text : kind = .string ↔ ∃ text, .string text ∈ literals
  fraction : kind = .float ↔ (¬ ∃ text, .string text ∈ literals) ∧ ∃ x, .float x ∈ literals
  integer : kind = .int ↔ (¬ ∃ text, .string text ∈ literals) ∧ ¬ ∃ x, .float x ∈ literals

theorem reflects_literal {value : Literal} (operand : value.isOperand) :
    (Inference.literalType value).Reflects [value] := by
  cases value with
  | none | bool => cases operand
  | int | hex | float | string => constructor <;> simp [Inference.literalType]

/-- The type of an arithmetic operation on operands of two types. -/
def joint (operator : BinaryOperator) (left right : Intrinsic) : Intrinsic :=
  if operator = .add ∧ (left = .string ∨ right = .string) then .string
  else if left = .float ∨ right = .float then .float
  else .int

theorem arithmeticType_eq (operator : BinaryOperator) (left right : Intrinsic) :
    Inference.arithmeticType operator (some left.typeId) (some right.typeId) =
      (joint operator left right).typeId := by
  simp only [Inference.arithmeticType, joint, Option.some.injEq, typeId_inj, Bool.and_eq_true,
    Bool.or_eq_true, decide_eq_true_eq]
  split
  · rfl
  · split <;> rfl

/-- An operator that takes its operands gives something that says which constants occur in both. -/
theorem Reflects.joint {operator : BinaryOperator} {left right : Intrinsic}
    {lefts rights : List Literal} (hl : left.Reflects lefts) (hr : right.Reflects rights)
    (arithmetic : Inference.isLogical operator = false)
    (accepted : operator.accepts (some left.typeId) (some right.typeId)) :
    (joint operator left right).Reflects (lefts ++ rights) := by
  have texts : (∃ text, Literal.string text ∈ lefts ++ rights) ↔
      left = .string ∨ right = .string := by
    simp only [List.mem_append, exists_or, hl.text, hr.text]
  have fractions (none : left ≠ .string ∧ right ≠ .string) :
      (∃ x, Literal.float x ∈ lefts ++ rights) ↔ left = .float ∨ right = .float := by
    rw [Ne, Ne, hl.text, hr.text] at none
    simp only [List.mem_append, exists_or, hl.fraction, hr.fraction, none, not_false_eq_true,
      true_and]
  have taken : operator = .add ∨ left ≠ .string ∧ right ≠ .string := by
    by_cases add : operator = .add
    · exact .inl add
    have numeric : TypeTable.isNumeric left.typeId ∧ TypeTable.isNumeric right.typeId := by
      cases operator <;> simp_all [Inference.isLogical, BinaryOperator.accepts]
    refine .inr ⟨?_, ?_⟩ <;> rintro rfl
    · exact absurd numeric.1 (by decide)
    · exact absurd numeric.2 (by decide)
  by_cases text : left = .string ∨ right = .string
  · have add : operator = .add := taken.resolve_right (by tauto)
    rw [Intrinsic.joint, if_pos ⟨add, text⟩]
    exact ⟨iff_of_true rfl (texts.2 text), iff_of_false (by decide) fun h => h.1 (texts.2 text),
      iff_of_false (by decide) fun h => h.1 (texts.2 text)⟩
  · rw [Intrinsic.joint, if_neg fun h => text h.2]
    have none := not_or.1 text
    rw [← texts] at text
    by_cases fraction : left = .float ∨ right = .float
    · rw [if_pos fraction]
      have found := (fractions none).2 fraction
      exact ⟨iff_of_false (by decide) text, iff_of_true rfl ⟨text, found⟩,
        iff_of_false (by decide) fun h => h.2 found⟩
    · rw [if_neg fraction]
      rw [← fractions none] at fraction
      exact ⟨iff_of_false (by decide) text, iff_of_false (by decide) fun h => fraction h.2,
        iff_of_true rfl ⟨text, fraction⟩⟩

end Intrinsic

/-! ## Types that are found without making anything -/

namespace Inference

variable {c : Codebase} {node left right : NodeId} {kind kind' : Intrinsic} {s : Session}

/-- The type of a node is an intrinsic one, and finding it makes nothing. What is pending lies above
the node. -/
def HasKind (c : Codebase) (node : NodeId) (kind : Intrinsic) : Prop :=
  ∀ {depth : Nat} {s : Session}, node.index < depth → (∀ n ∈ s.pending, node.index < n.index) →
    (atDepth c depth).typeOf node none s = .ok (some kind.typeId, s)

theorem HasKind.typeOf (h : HasKind c node kind) (has : c.tree.Has node) (idle : s.pending = []) :
    Query.typeOf c node s = .ok (some kind.typeId, s) := by
  refine h ?_ (by simp [idle])
  have : node.index < c.tree.size := has
  have : c.tree.size + 2 ≤ (c.tree.size + 2) * (c.tree.size + 2) := Nat.le_mul_self _
  rw [Codebase.questionDepth]
  omega

theorem HasKind.unique (h : HasKind c node kind) (h' : HasKind c node kind')
    (idle : s.pending = []) : kind = kind' := by
  have found := h (Nat.lt_succ_self _) (s := s) (by simp [idle])
  have found' := h' (Nat.lt_succ_self _) (s := s) (by simp [idle])
  cases kind <;> cases kind' <;> first | rfl | cases found.symm.trans found'

/-- A node has a kind if its form does, while the node itself is pending. -/
theorem hasKind_of_form
    (h : ∀ {depth : Nat} {s : Session}, node.index ≤ depth →
      (∀ n ∈ s.pending, node.index ≤ n.index) →
      (atDepth c depth).formType c node none s = .ok (some kind.typeId, s)) :
    HasKind c node kind := by
  intro depth s enough above
  obtain ⟨depth, rfl⟩ := Nat.exists_eq_succ_of_ne_zero (Nat.ne_zero_of_lt enough)
  have fresh : ¬ s.pending.contains node := fun pending =>
    Nat.lt_irrefl _ (above node (List.contains_iff_mem.1 pending))
  refine (findType_eq _ node none s).trans ?_
  rw [if_neg fresh, h (Nat.le_of_lt_succ enough)]
  · change Except.ok (_, { s with pending := (node :: s.pending).erase node }) = _
    rw [List.erase_cons_head]
  · intro n pending
    rcases List.mem_cons.1 pending with rfl | pending
    · exact Nat.le_refl _
    · exact Nat.le_of_lt (above n pending)

theorem hasKind_literal {value : Literal} (form : c.tree.form node = .ok (.literal value)) :
    HasKind c node (literalType value) :=
  hasKind_of_form fun _ _ => bind_ok (liftM_ok form _)

/-- A node that has the type of another one below it. -/
theorem HasKind.passed {inner : NodeId} (h : HasKind c inner kind)
    (lower : inner.index < node.index)
    (form : c.tree.form node = .ok (.literalExpression inner) ∨
      c.tree.form node = .ok (.unary .negate inner)) : HasKind c node kind := by
  refine hasKind_of_form fun {depth s} enough above => ?_
  have found := h (Nat.lt_of_lt_of_le lower enough) fun n pending =>
    Nat.lt_of_lt_of_le lower (above n pending)
  rcases form with form | form
  · exact (bind_ok (liftM_ok form _)).trans found
  · exact (bind_ok (liftM_ok form _)).trans found

theorem HasKind.binary {operator : BinaryOperator} (hl : HasKind c left kind)
    (hr : HasKind c right kind') (lower : left.index < node.index)
    (lower' : right.index < node.index)
    (form : c.tree.form node = .ok (.binary left operator right))
    (arithmetic : isLogical operator = false) :
    HasKind c node (Intrinsic.joint operator kind kind') := by
  refine hasKind_of_form fun {depth s} enough above => ?_
  have found := hl (Nat.lt_of_lt_of_le lower enough) fun n pending =>
    Nat.lt_of_lt_of_le lower (above n pending)
  have found' := hr (Nat.lt_of_lt_of_le lower' enough) fun n pending =>
    Nat.lt_of_lt_of_le lower' (above n pending)
  refine (bind_ok (liftM_ok form s)).trans ?_
  dsimp only
  rw [arithmetic, if_neg (by simp), bind_ok found, bind_ok found', Intrinsic.arithmeticType_eq]
  rfl

/-- The parts of a node come before it. -/
theorem lower_of_form (descending : c.tree.Descending) {form : Form} {child : NodeId}
    (h : c.tree.form node = .ok form) (part : child ∈ form.children) :
    child.index < node.index := by
  obtain ⟨n, hn, rfl⟩ := Tree.exists_node_of_form h
  exact descending node n hn child part

theorem exists_hasKind (descending : c.tree.Descending) {literals : List Literal}
    (h : c.tree.Arithmetic node literals) : ∃ kind, HasKind c node kind := by
  induction h with
  | literal form _ => exact ⟨_, hasKind_literal form⟩
  | expression form _ ih =>
    obtain ⟨kind, hk⟩ := ih
    exact ⟨kind, hk.passed (lower_of_form descending form (by simp [Form.children])) (.inl form)⟩
  | negate form _ ih =>
    obtain ⟨kind, hk⟩ := ih
    exact ⟨kind, hk.passed (lower_of_form descending form (by simp [Form.children])) (.inr form)⟩
  | binary form arithmetic _ _ ihl ihr =>
    obtain ⟨kind, hk⟩ := ihl
    obtain ⟨kind', hk'⟩ := ihr
    exact ⟨_, hk.binary hk' (lower_of_form descending form (by simp [Form.children]))
      (lower_of_form descending form (by simp [Form.children])) form arithmetic⟩

end Inference

/-! ## Validation -/

namespace Session

variable {c : Codebase} {s : Session}

/-- Every intrinsic type is there. -/
def Stocked (s : Session) : Prop := ∀ kind : Intrinsic, ∃ info, s.types.get? kind.typeId = some info

theorem Stocked.extends {t : Session} (h : s.Stocked) (e : s.Extends t) : t.Stocked := fun kind =>
  (h kind).imp fun _ => e.types

/-- No type disappears, and the numbers for symbols are not exceeded. -/
def stocking : Conduct Session where
  keeps s := s.nextSymbol ≤ SymbolId.limit ∧ s.Stocked
  grows _ _ := True
  refl _ := trivial
  trans _ _ := trivial
  tolerates _ := True

theorem steps_stocking : Query.Steps c stocking where
  scriptType id := by
    intro s answer t kept run
    refine ⟨trivial, ?_⟩
    rw [Query.scriptType_eq] at run
    split at run
    · cases run
      exact kept
    split at run
    · cases run
      exact kept
    split at run
    · cases run
      exact kept
    split at run
    · cases run
      exact kept
    · cases run
      exact ⟨kept.1, kept.2.extends (extends_withScript s id _ _)⟩
  arrayOf element := by
    intro s answer t kept _ run
    refine ⟨trivial, ?_⟩
    rw [Query.arrayOf_eq element kept.1] at run
    split at run
    · cases run
      exact kept
    split at run
    · rename_i room
      cases run
      refine ⟨?_, kept.2.extends (extends_withArray s element)⟩
      have synthetic : (s.withArray element).synthetic =
          s.synthetic.extend (ArrayMembers.block element s.nextSymbol) := rfl
      rw [nextSymbol, synthetic, SymbolTable.base_extend, SymbolTable.size_extend,
        ArrayMembers.length_block, ← Nat.add_assoc]
      exact room
    · cases run
  pending kept := ⟨kept, fun _ kept' => ⟨trivial, kept'⟩⟩

theorem Arises.stocked (h : s.Arises c) : s.Stocked := by
  obtain ⟨first, started, leads⟩ := h
  rw [start_eq] at started
  split at started
  · rename_i room
    cases started
    refine (leads.steady steps_stocking ⟨?_, fun kind => ⟨_, types_initial c kind⟩⟩).2.2
    exact (founded_initial room).room
  · cases started

end Session

namespace Check

open Inference

variable {c : Codebase} {node root : NodeId} {literals : List Literal} {s : Session}
  {p q r : Progress} {below : NodeId → Check Unit}

/-- The session stays the same while the report is continued. If the intrinsic types are there and
the ranges of the tree are in order, no fault is met. -/
def reviewing (c : Codebase) (s : Session) : Conduct Progress where
  keeps p := p.session = s
  grows p q := ∃ new, q.report = p.report ++ new
  refl p := ⟨[], by simp⟩
  trans := by
    rintro p q r ⟨new, h⟩ ⟨more, h'⟩
    exact ⟨new ++ more, by rw [h', h, List.append_assoc]⟩
  tolerates _ := ¬ (s.Stocked ∧ c.tree.Ordered)

/-- What is added to a report objects to no operator. -/
def Silent (p q : Progress) : Prop := ∀ new, q.report = p.report ++ new → ∀ d ∈ new,
  d.code ≠ Message.operatorNotApplicable.code

theorem Silent.left (h : Silent p r) (later : (reviewing c s).grows q r) : Silent p q := by
  obtain ⟨more, hr⟩ := later
  intro new hq d hd
  exact h (new ++ more) (by rw [hr, hq, List.append_assoc]) d (List.mem_append_left _ hd)

theorem Silent.right (h : Silent p r) (earlier : (reviewing c s).grows p q) : Silent q r := by
  obtain ⟨new, hq⟩ := earlier
  intro more hr d hd
  exact h (new ++ more) (by rw [hr, hq, List.append_assoc]) d (List.mem_append_right _ hd)

theorem Objects.not_silent (h : Objects c node p q) : ¬ Silent p q := by
  obtain ⟨range, d, arguments, -, about, added⟩ := h
  intro silent
  refine silent [d] added d (by simp) ?_
  obtain ⟨span, -, hd⟩ := exists_of_bind_eq_ok about
  cases hd
  rfl

theorem Objects.grows (h : Objects c node p q) : (reviewing c s).grows p q := by
  obtain ⟨_, d, _, _, _, added⟩ := h
  exact ⟨[d], added⟩

/-- Operands that are not accepted can be objected to. -/
theorem verdict_completes (stocked : p.session.Stocked) (ordered : c.tree.Ordered)
    (has : c.tree.Has node) (label : String) (accepted : Bool) (left right : Intrinsic) :
    ∃ q, verdict c node label accepted (some left.typeId) (some right.typeId) p =
      .ok (.descend, q) := by
  obtain ⟨n, hn⟩ := has.node?
  have named (kind : Intrinsic) : ∃ name, typeName kind.typeId p = .ok (name, p) := by
    obtain ⟨info, hi⟩ := stocked kind
    have known : Query.typeInfo kind.typeId p.session = .ok (info, p.session) :=
      liftM_ok (TypeTable.get_eq_ok hi) p.session
    exact ⟨info.name, bind_ok (Correspondence.Reporting.ask_ok known)⟩
  obtain ⟨name, hname⟩ := named left
  obtain ⟨name', hname'⟩ := named right
  cases accepted with
  | true => exact ⟨p, rfl⟩
  | false =>
    rcases Binding.about_eq n.range .operatorNotApplicable [label, name, name'] with
      ⟨d, about, -⟩ | ⟨-, reversed⟩
    · refine ⟨{ p with report := p.report ++ [d] }, ?_⟩
      have reported : report c node .operatorNotApplicable [label, name, name'] p =
          .ok ((), { p with report := p.report ++ [d] }) :=
        (bind_ok (liftM_ok (Tree.range_eq_ok hn) p)).trans (bind_ok (liftM_ok about p))
      exact bind_ok ((bind_ok hname).trans ((bind_ok hname').trans reported))
    · exact absurd (ordered _ n hn) reversed

theorem runs_verdict (kept : p.session = s) (has : c.tree.Has node) (label : String)
    (accepted : Bool) (left right : Intrinsic) :
    Runs (reviewing c s) p (verdict c node label accepted (some left.typeId) (some right.typeId))
      fun step q => step = .descend ∧ (Silent p q → accepted = true) := by
  have holds (step : Step) (q : Progress)
      (run : verdict c node label accepted (some left.typeId) (some right.typeId) p =
        .ok (step, q)) : (reviewing c s).grows p q ∧ (reviewing c s).keeps q ∧
        step = .descend ∧ (Silent p q → accepted = true) := by
    obtain ⟨same, objects⟩ := verdict_eq_ok (by simp) run
    have descends : step = .descend := by
      cases accepted with
      | true => cases run; rfl
      | false => obtain ⟨_, _, -, done⟩ := bind_eq_ok run; cases done; rfl
    cases accepted with
    | true =>
      cases run
      exact ⟨(reviewing c s).refl _, kept, rfl, fun _ => rfl⟩
    | false =>
      have refused := objects.2 rfl
      exact ⟨refused.grows, same.trans kept, descends, fun silent =>
        absurd silent refused.not_silent⟩
  by_cases good : s.Stocked ∧ c.tree.Ordered
  · obtain ⟨q, run⟩ := verdict_completes (kept.symm ▸ good.1) good.2 has label accepted left right
    obtain ⟨grows, kept', post⟩ := holds _ _ run
    exact .done run grows kept' post
  · exact .of_forall_ok (fun _ => good) holds

/-- What the validation of a node is followed by in a walk. -/
theorem runs_walkWithin (post : Progress → Prop) {form : Form} {depth : Nat}
    {last : Unit → Progress → Prop} (kept : p.session = s) (hform : c.tree.form node = .ok form)
    (said : Runs (reviewing c s) { p with validated := node :: p.validated } (phrase c below node)
      fun step q => step = .descend ∧ post q)
    (parts : ∀ q, (reviewing c s).grows p q → q.session = s → post q →
      Runs (reviewing c s) q
        (form.children.forM (c.tree.walkWithin (Check.node c below) depth)) last) :
    Runs (reviewing c s) p (c.tree.walkWithin (Check.node c below) (depth + 1) node) last := by
  have noted : Runs (reviewing c s) p
      (modify fun p => { p with validated := node :: p.validated })
      fun _ q => q = { p with validated := node :: p.validated } :=
    .done rfl ⟨[], by simp⟩ kept rfl
  have visited : Runs (reviewing c s) p (Check.node c below node)
      fun step q => step = .descend ∧ post q := by
    refine .bind noted ?_
    rintro _ _ - - rfl
    exact said
  refine .bind visited ?_
  rintro _ q grows kept' ⟨rfl, holds⟩
  exact .lift hform (parts q grows kept' holds)

/-- What is true of the type of a node after a walk from it that objects to no operator. -/
def Settles (c : Codebase) (s : Session) (node : NodeId) (literals : List Literal)
    (walk : Check Unit) : Prop :=
  ∀ ⦃p : Progress⦄, p.session = s → Runs (reviewing c s) p walk fun _ q =>
    Silent p q → ∀ kind, HasKind c node kind → kind.Reflects literals

/-- A node that has the type of the part below it. -/
theorem Settles.passed {inner : NodeId} {depth : Nat} (idle : s.pending = [])
    (h : Settles c s inner literals (c.tree.walkWithin (Check.node c below) depth inner))
    {kind : Intrinsic} (found : HasKind c inner kind) (lower : inner.index < node.index)
    (form : c.tree.form node = .ok (.literalExpression inner) ∨
      c.tree.form node = .ok (.unary .negate inner)) :
    Settles c s node literals (c.tree.walkWithin (Check.node c below) (depth + 1) node) := by
  intro p kept
  have parts (q : Progress) (grows : (reviewing c s).grows p q) (kept' : q.session = s) :
      Runs (reviewing c s) q ([inner].forM (c.tree.walkWithin (Check.node c below) depth))
        fun _ r => Silent p r → ∀ kind, HasKind c node kind → kind.Reflects literals := by
    refine .bind (h kept') fun _ r grows' kept'' reflects =>
      .pure kept'' fun silent kind' found' => ?_
    rw [found'.unique (found.passed lower form) idle]
    exact reflects (silent.right grows) kind found
  rcases form with form | form <;>
    exact runs_walkWithin (fun _ => True) kept form (.lift form (.pure kept ⟨rfl, trivial⟩))
      fun q grows kept' _ => parts q grows kept'

/-- The nodes of an arithmetic expression are all come to, and nothing is made on the way. If none
of the operators is objected to, the type of the expression says which constants occur in it. -/
theorem settles_walkWithin (descending : c.tree.Descending) (idle : s.pending = [])
    (h : c.tree.Arithmetic node literals) {depth : Nat} (enough : node.index < depth) :
    Settles c s node literals (c.tree.walkWithin (Check.node c below) depth node) := by
  induction h generalizing depth with
  | literal form operand =>
    obtain ⟨depth, rfl⟩ := Nat.exists_eq_succ_of_ne_zero (Nat.ne_zero_of_lt enough)
    intro p kept
    refine runs_walkWithin (fun _ => True) kept form (.lift form (.pure kept ⟨rfl, trivial⟩)) ?_
    intro q _ kept' _
    refine .pure kept' fun _ kind found => ?_
    rw [found.unique (hasKind_literal form) idle]
    exact Intrinsic.reflects_literal operand
  | @expression node inner literals form arithmetic ih =>
    obtain ⟨depth, rfl⟩ := Nat.exists_eq_succ_of_ne_zero (Nat.ne_zero_of_lt enough)
    have lower : inner.index < node.index :=
      lower_of_form descending form (by simp [Form.children])
    obtain ⟨kind, found⟩ := exists_hasKind descending arithmetic
    exact .passed idle (ih (by omega)) found lower (.inl form)
  | @negate node inner literals form arithmetic ih =>
    obtain ⟨depth, rfl⟩ := Nat.exists_eq_succ_of_ne_zero (Nat.ne_zero_of_lt enough)
    have lower : inner.index < node.index :=
      lower_of_form descending form (by simp [Form.children])
    obtain ⟨kind, found⟩ := exists_hasKind descending arithmetic
    exact .passed idle (ih (by omega)) found lower (.inr form)
  | @binary node left right operator lefts rights form arithmetic hl hr ihl ihr =>
    obtain ⟨depth, rfl⟩ := Nat.exists_eq_succ_of_ne_zero (Nat.ne_zero_of_lt enough)
    have lower : left.index < node.index := lower_of_form descending form (by simp [Form.children])
    have lower' : right.index < node.index :=
      lower_of_form descending form (by simp [Form.children])
    obtain ⟨kind, found⟩ := exists_hasKind descending hl
    obtain ⟨kind', found'⟩ := exists_hasKind descending hr
    obtain ⟨n, hn, -⟩ := Tree.exists_node_of_form form
    have has := Tree.has_of_node? hn
    intro p kept
    refine runs_walkWithin (fun q => Silent p q →
      operator.accepts (some kind.typeId) (some kind'.typeId)) kept form (.lift form ?_) ?_
    · -- The operands are judged by their types before the walk comes to them.
      have asked := found.typeOf (s := p.session) (Nat.lt_trans lower has) (kept ▸ idle)
      have asked' := found'.typeOf (s := p.session) (Nat.lt_trans lower' has) (kept ▸ idle)
      refine .known (Correspondence.Reporting.ask_ok asked) ?_
      refine .known (Correspondence.Reporting.ask_ok asked') ?_
      exact runs_verdict (p := { p with validated := node :: p.validated }) kept has operator.label
        (operator.accepts (some kind.typeId) (some kind'.typeId)) kind kind'
    · intro q grows kept' accepted
      refine .bind (ihl (by omega) kept') fun _ r grows' kept'' reflects => ?_
      refine .bind (ihr (by omega) kept'') fun _ t grows'' kept''' reflects' => ?_
      refine .pure kept''' fun silent joint hjoint => ?_
      have later := (reviewing c s).trans grows' grows''
      rw [hjoint.unique (found.binary found' lower lower' form arithmetic) idle]
      exact .joint (reflects ((silent.left grows'').right grows) kind found)
        (reflects' (silent.right ((reviewing c s).trans grows grows')) kind' found') arithmetic
        (accepted (silent.left later))

theorem has_of_arithmetic (h : c.tree.Arithmetic node literals) : c.tree.Has node := by
  cases h with
  | literal form | expression form | negate form | binary form =>
    obtain ⟨n, hn, -⟩ := Tree.exists_node_of_form form
    exact Tree.has_of_node? hn

/-- Arithmetic with constants can be validated in every session. If no operator is objected to while
nothing is pending, its type is that of texts if and only if a text occurs; otherwise it is that of
fractions if and only if a fraction occurs, and otherwise that of integers. -/
theorem type_of_accepted_arithmetic (descending : c.tree.Descending)
    (arithmetic : c.tree.Arithmetic root literals) (idle : s.pending = []) :
    (s.Arises c → c.tree.Ordered → ∃ report, Query.validate c root s = .ok (report, s)) ∧
      ∀ report t, Query.validate c root s = .ok (report, t) →
        (∀ d ∈ report, d.code ≠ Message.operatorNotApplicable.code) →
        t = s ∧ ∃ kind : Intrinsic, Query.typeOf c root t = .ok (some kind.typeId, t) ∧
          (kind = .string ↔ ∃ text, .string text ∈ literals) ∧
          (kind = .float ↔ (¬ ∃ text, .string text ∈ literals) ∧ ∃ x, .float x ∈ literals) ∧
          (kind = .int ↔
            (¬ ∃ text, .string text ∈ literals) ∧ ¬ ∃ x, .float x ∈ literals) := by
  have has := has_of_arithmetic arithmetic
  obtain ⟨kind, found⟩ := exists_hasKind descending arithmetic
  have settles : Settles c s root literals (tree c root) := by
    rw [tree, within, Tree.walk_eq descending has]
    exact settles_walkWithin descending idle arithmetic has
  have walked := settles (p := { session := s }) rfl
  refine ⟨fun arises ordered => ?_, fun report t run silent => ?_⟩
  · cases walked with
    | @done _ q run _ kept _ =>
      have kept : q.session = s := kept
      refine ⟨q.report, (bind_ok (x := get) rfl).trans ((bind_ok (liftM_ok run s)).trans ?_)⟩
      rw [← kept]
      rfl
    | fault _ tolerated => exact absurd ⟨arises.stocked, ordered⟩ tolerated
  · obtain ⟨q, checked, rfl, rfl⟩ := validate_eq_ok run
    obtain ⟨-, kept, reflects⟩ := walked.of_ok checked
    have kept : q.session = s := kept
    have reflected : kind.Reflects literals := by
      refine reflects (fun new added d hd => ?_) kind found
      rw [List.nil_append] at added
      exact silent d (added ▸ hd)
    exact ⟨kept, kind, found.typeOf has (kept ▸ idle), reflected.text, reflected.fraction,
      reflected.integer⟩

/-- A product of numbers with a sign, and a text that is added to it:

    ScriptName A
    Function F()
      -(1 * 0x2) + "a"
    EndFunction -/
def sumForms : List Form :=
  [.identifier "A", .scriptHeader ⟨0⟩ none ∅,
    .identifier "F", .parameterList [], .functionHeader none ⟨2⟩ ⟨3⟩ ∅,
    .literal (.int 1), .literalExpression ⟨5⟩, .literal (.hex 2), .literalExpression ⟨7⟩,
    .binary ⟨6⟩ .multiply ⟨8⟩, .unary .negate ⟨9⟩, .literal (.string "a"), .literalExpression ⟨11⟩,
    .binary ⟨10⟩ .add ⟨12⟩, .expressionStatement ⟨13⟩, .function ⟨4⟩ [⟨14⟩], .script ⟨1⟩ [] [⟨15⟩]]

theorem arithmetic_ofForms :
    (Tree.ofForms sumForms).Arithmetic ⟨13⟩ [.int 1, .hex 2, .string "a"] := by
  have product : (Tree.ofForms sumForms).Arithmetic ⟨9⟩ ([.int 1] ++ [.hex 2]) :=
    .binary rfl rfl (.expression rfl (.literal rfl rfl)) (.expression rfl (.literal rfl rfl))
  exact .binary rfl rfl (.negate rfl product) (.expression rfl (.literal rfl rfl))

/-- A text that is added to a number makes a text. -/
theorem sum_with_text_is_text : ∃ (c : Codebase) (s : Session) (report : Report),
    c.tree = .ofForms sumForms ∧ c.tree.Descending ∧ c.tree.Ordered ∧ s.Arises c ∧
    s.pending = [] ∧ c.tree.Arithmetic ⟨13⟩ [.int 1, .hex 2, .string "a"] ∧
    Query.validate c ⟨13⟩ s = .ok (report, s) ∧
    (∀ d ∈ report, d.code ≠ Message.operatorNotApplicable.code) ∧
    Query.typeOf c ⟨13⟩ s = .ok (some Intrinsic.string.typeId, s) := by
  obtain ⟨c, s, same, -, wf, -, -, arises, fits⟩ := Query.exists_session sumForms
    (fun c s => (Query.validate c ⟨13⟩ s).toOption.any (·.1 = []))
    (by decide +kernel) (by decide +kernel) (by decide +kernel) (by decide +kernel)
  have ordered : c.tree.Ordered := same ▸ by decide +kernel
  have arithmetic := same ▸ arithmetic_ofForms
  obtain ⟨-, typed⟩ := type_of_accepted_arithmetic wf.descending arithmetic arises.pending
  obtain ⟨⟨report, t⟩, run, empty⟩ := exists_ok_of_any fits
  obtain rfl := of_decide_eq_true empty
  obtain ⟨rfl, kind, found, text, -⟩ := typed [] t run (by simp)
  obtain rfl := text.2 ⟨"a", by simp⟩
  exact ⟨c, t, [], same, wf.descending, ordered, arises, arises.pending, arithmetic, run, by simp,
    found⟩

end Check

end PapyrusAnalysis
