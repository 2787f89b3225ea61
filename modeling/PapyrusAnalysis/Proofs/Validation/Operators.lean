import PapyrusAnalysis.Proofs.Program
import PapyrusAnalysis.Proofs.Session.Membership
import PapyrusAnalysis.Proofs.Validation.Conduct

/-!
# Operators and assignments that are combined with them

A binary operation and an assignment that is combined with its operator are both judged by the types
of their operands. The two judgements agree, but for a text that is added to something else: the sum
is taken, and the assignment of it is objected to.

## Main definitions

* `AssignmentOperator.combined?`: the operator that an assignment is combined with.
* `Check.Objects`: an operator that is objected to.
* `Check.judged`: what both validations come down to.
-/

namespace PapyrusAnalysis

/-! ## Assignments that are combined with an operator -/

/-- The operator that an assignment is combined with. -/
def AssignmentOperator.combined? : AssignmentOperator → Option BinaryOperator
  | .assign => none
  | .add => some .add
  | .subtract => some .subtract
  | .multiply => some .multiply
  | .divide => some .divide
  | .modulus => some .modulus

/-- A text is added to something else, the type of which is known. -/
def BinaryOperator.LengthensOther (operator : BinaryOperator) (left right : Option TypeId) : Prop :=
  operator = .add ∧ right = some Intrinsic.string.typeId ∧
    ∃ type, left = some type ∧ type ≠ Intrinsic.string.typeId

variable {c : Codebase} {assigning : AssignmentOperator} {operator : BinaryOperator}

/-- An assignment takes the operands that its operator takes, unless they are a text that is added
to something else. -/
theorem AssignmentOperator.accepts_eq_false_iff (combined : assigning.combined? = some operator)
    (left right : Option TypeId) : assigning.accepts left right = false ↔
      operator.accepts left right = false ∨ operator.LengthensOther left right := by
  cases left with
  | none => simp [AssignmentOperator.accepts, BinaryOperator.accepts, BinaryOperator.LengthensOther]
  | some left =>
    cases right with
    | none =>
      simp [AssignmentOperator.accepts, BinaryOperator.accepts, BinaryOperator.LengthensOther]
    | some right =>
      cases assigning <;> cases combined <;>
        simp only [AssignmentOperator.accepts, BinaryOperator.accepts,
          BinaryOperator.LengthensOther, reduceCtorEq, false_and, or_false, true_and]
      by_cases text : right = Intrinsic.string.typeId
      · have other : TypeTable.isNumeric Intrinsic.string.typeId = false := by decide
        simp [text, other]
      · simp [text]

/-- An operator takes a text that is added to anything. -/
theorem BinaryOperator.LengthensOther.accepts {left right : Option TypeId}
    (h : operator.LengthensOther left right) : operator.accepts left right = true := by
  obtain ⟨rfl, rfl, type, rfl, -⟩ := h
  simp [BinaryOperator.accepts]

/-- The types of two operands, one asked for after the other. -/
def Query.operandTypes (c : Codebase) (left right : NodeId) :
    Query (Option TypeId × Option TypeId) := do
  return (← typeOf c left, ← typeOf c right)

namespace Check

variable {node left right place value : NodeId} {p q u : Progress} {step : Step}
  {below : NodeId → Check Unit}

/-- A validation adds to its report that the operator at a node does not take its operands. -/
def Objects (c : Codebase) (node : NodeId) (p q : Progress) : Prop :=
  ∃ range d arguments, c.tree.range node = .ok range ∧
    Diagnostic.about range .operatorNotApplicable arguments = .ok d ∧ q.report = p.report ++ [d]

theorem operatorMismatch_eq_ok {label : String} {l r : TypeId}
    (run : operatorMismatch c node label (some l) (some r) p = .ok ((), q)) :
    q.session = p.session ∧ Objects c node p q := by
  obtain ⟨name, p₁, asked, rest⟩ := bind_eq_ok run
  obtain ⟨name', p₂, asked', reported⟩ := bind_eq_ok rest
  obtain ⟨rfl, -⟩ := typeName_eq_ok asked
  obtain ⟨rfl, -⟩ := typeName_eq_ok asked'
  obtain ⟨d, range, hrange, made, rfl⟩ := report_eq_ok reported
  exact ⟨rfl, range, d, _, hrange, made, rfl⟩

/-- What an operator comes to once the types of its operands are known. -/
def verdict (c : Codebase) (node : NodeId) (label : String) (accepted : Bool)
    (left right : Option TypeId) : Check Step := do
  unless accepted do
    operatorMismatch c node label left right
  return .descend

theorem verdict_eq_ok {label : String} {accepted : Bool} {l r : Option TypeId}
    (known : accepted = false → l ≠ none ∧ r ≠ none)
    (run : verdict c node label accepted l r p = .ok (step, q)) :
    q.session = p.session ∧ (Objects c node p q ↔ accepted = false) := by
  cases accepted with
  | true =>
    cases run
    have silent : ¬ Objects c node p p := by
      rintro ⟨range, d, arguments, -, -, same⟩
      simp at same
    exact ⟨rfl, by simp [silent]⟩
  | false =>
    obtain ⟨hl, hr⟩ := known rfl
    obtain ⟨l, rfl⟩ := Option.ne_none_iff_exists'.1 hl
    obtain ⟨r, rfl⟩ := Option.ne_none_iff_exists'.1 hr
    obtain ⟨_, p', mismatch, done⟩ := bind_eq_ok run
    cases done
    obtain ⟨same, objects⟩ := operatorMismatch_eq_ok mismatch
    exact ⟨same, by simp [objects]⟩

/-- Finds the types of two operands and objects to them unless they are accepted. -/
def judged (c : Codebase) (node left right : NodeId) (label : String)
    (accepts : Option TypeId → Option TypeId → Bool) : Check Step := do
  let left ← ask (Query.typeOf c left)
  let right ← ask (Query.typeOf c right)
  verdict c node label (accepts left right) left right

theorem operands_eq_judged : operands c node left operator right =
    judged c node left right operator.label operator.accepts := rfl

theorem sides_eq_judged (combined : assigning.combined? = some operator) :
    sides c node left assigning right =
      judged c node left right assigning.label assigning.accepts := by
  have other : assigning ≠ .assign := by
    rintro rfl
    cases combined
  simp only [sides, if_neg other]
  rfl

section

variable {label : String} {accepts : Option TypeId → Option TypeId → Bool}

/-- Operands are objected to if and only if they are not accepted. -/
theorem judged_eq_ok (known : ∀ {l r}, accepts l r = false → l ≠ none ∧ r ≠ none)
    (run : judged c node left right label accepts p = .ok (step, q)) :
    ∃ types, Query.operandTypes c left right p.session = .ok (types, q.session) ∧
      (Objects c node p q ↔ accepts types.1 types.2 = false) := by
  obtain ⟨l, p₁, first, rest⟩ := bind_eq_ok run
  obtain ⟨r, p₂, second, judgement⟩ := bind_eq_ok rest
  obtain ⟨s, asked, rfl⟩ := ask_eq_ok first
  obtain ⟨t, asked', rfl⟩ := ask_eq_ok second
  obtain ⟨same, objects⟩ := verdict_eq_ok known judgement
  refine ⟨(l, r), ?_, objects⟩
  rw [same]
  exact (bind_ok asked).trans (bind_ok asked')

end

theorem known_of_accepts {l r : Option TypeId} (h : operator.accepts l r = false) :
    l ≠ none ∧ r ≠ none := by
  cases l <;> cases r <;> simp_all [BinaryOperator.accepts]

theorem known_of_takes {l r : Option TypeId} (h : assigning.accepts l r = false) :
    l ≠ none ∧ r ≠ none := by
  cases l <;> cases r <;> simp_all [AssignmentOperator.accepts]

theorem report_of_isWritablePlace {answer : Bool}
    (asked : isWritablePlace c place p = .ok (answer, u)) : u.report = p.report := by
  obtain ⟨name, t, named, rest⟩ := bind_eq_ok asked
  obtain ⟨-, rfl⟩ := liftM_eq_ok named
  cases name with
  | none =>
    cases rest
    rfl
  | some name =>
    obtain ⟨s, -, rfl⟩ := ask_eq_ok rest
    rfl

/-- An assignment to a place that can be written to comes down to the types of its sides. -/
theorem assignment_eq (shape : c.tree.isAssignable place = .ok true)
    (writable : isWritablePlace c place p = .ok (true, u)) :
    assignment c node (some place) assigning (some value) p =
      sides c node place assigning value u := by
  refine (bind_ok (liftM_ok shape p)).trans ?_
  exact bind_ok writable

/-- Validations of an assignment that is combined with an operator and of the operation itself come
to an end. If the operands have the same types, the assignment is objected to if and only if the
operation is, or a text is added to something else; in that case only the assignment is objected
to. -/
theorem assignment_and_operation (bound : c.Bound) (grown : c.tree.Grown)
    (descending : c.tree.Descending) (shielded : c.tree.Shielded) (ordered : c.tree.Ordered)
    (combined : assigning.combined? = some operator) {node' : NodeId}
    (assignment : c.tree.form node = .ok (.assignment (some place) assigning (some value)))
    (operation : c.tree.form node' = .ok (.binary left operator right))
    (shape : c.tree.isAssignable place = .ok true)
    (writable : isWritablePlace c place p = .ok (true, u)) (p' : Progress) :
    (p.session.Arises c → Completes (p.session.Crowded c) (phrase c below node p)) ∧
      (p'.session.Arises c → Completes (p'.session.Crowded c) (phrase c below node' p')) ∧
      ∀ step q step' q', phrase c below node p = .ok (step, q) →
        phrase c below node' p' = .ok (step', q') →
        ∃ types types', Query.operandTypes c place value u.session = .ok (types, q.session) ∧
          Query.operandTypes c left right p'.session = .ok (types', q'.session) ∧
          (types = types' →
            (Objects c node p q ↔
              Objects c node' p' q' ∨ operator.LengthensOther types.1 types.2) ∧
            ¬ (Objects c node' p' q' ∧ operator.LengthensOther types.1 types.2)) := by
  have hc := bound.sound grown descending shielded
  have law (demand : Nat) : (Correspondence.strict c demand).Reporting c :=
    ⟨Correspondence.strict_lawful hc demand, fun hn => .inl (ordered _ _ hn)⟩
  obtain ⟨n, hn, hf⟩ := Tree.exists_node_of_form assignment
  obtain ⟨n', hn', hf'⟩ := Tree.exists_node_of_form operation
  have part {m : NodeId} (hm : m ∈ n.form.children) : c.tree.Has m := descending.has hn hm
  have part' {m : NodeId} (hm : m ∈ n'.form.children) : c.tree.Has m := descending.has hn' hm
  have phrased : phrase c below node p = judged c node place value assigning.label assigning.accepts
      u := by
    refine (bind_ok (liftM_ok assignment p)).trans ((assignment_eq shape writable).trans ?_)
    rw [sides_eq_judged combined]
  have phrased' : phrase c below node' p' = judged c node' left right operator.label
      operator.accepts p' :=
    (bind_ok (liftM_ok operation p')).trans (congrFun operands_eq_judged p')
  refine ⟨fun arises => ?_, fun arises => ?_, fun step q step' q' run run' => ?_⟩
  · rw [show phrase c below node p = _ from bind_ok (liftM_ok assignment p)]
    refine completes_of_coupled ((law _).assignment
      ⟨⟨rfl, arises.sound hc, rfl⟩, rfl, rfl⟩ (Tree.has_of_node? hn) ?_ ?_ assigning)
    · rintro id ⟨⟩
      exact part (by simp [hf, Form.children])
    · rintro id ⟨⟩
      exact part (by simp [hf, Form.children])
  · rw [show phrase c below node' p' = _ from bind_ok (liftM_ok operation p')]
    exact completes_of_coupled ((law _).operands ⟨⟨rfl, arises.sound hc, rfl⟩, rfl, rfl⟩
      (Tree.has_of_node? hn') (part' (by simp [hf', Form.children]))
      (part' (by simp [hf', Form.children])) operator)
  · rw [phrased] at run
    rw [phrased'] at run'
    obtain ⟨types, asked, objects⟩ := judged_eq_ok known_of_takes run
    obtain ⟨types', asked', objects'⟩ := judged_eq_ok known_of_accepts run'
    refine ⟨types, types', asked, asked', ?_⟩
    rintro rfl
    have same : Objects c node p q ↔ Objects c node u q := by
      rw [Objects, Objects, report_of_isWritablePlace writable]
    rw [same, objects, objects', AssignmentOperator.accepts_eq_false_iff combined]
    refine ⟨Iff.rfl, ?_⟩
    rintro ⟨refused, lengthens⟩
    rw [lengthens.accepts] at refused
    cases refused

/-- A variable that something is added to, once by an operator and once by an assignment:

    ScriptName A
    Function F()
      Type x
      x + value
      x += value
    EndFunction -/
def additionForms (type : String) (value : Literal) : List Form :=
  [.identifier "A", .scriptHeader ⟨0⟩ none ∅,
    .identifier "F", .parameterList [], .functionHeader none ⟨2⟩ ⟨3⟩ ∅,
    .identifier type, .typeName ⟨5⟩ false, .identifier "x", .declaration ⟨6⟩ ⟨7⟩ none,
    .identifier "x", .reference ⟨9⟩, .literal value, .literalExpression ⟨11⟩,
    .binary ⟨10⟩ .add ⟨12⟩, .expressionStatement ⟨13⟩,
    .identifier "x", .reference ⟨15⟩, .literal value, .literalExpression ⟨17⟩,
    .assignment (some ⟨16⟩) .add (some ⟨18⟩),
    .function ⟨4⟩ [⟨8⟩, ⟨14⟩, ⟨19⟩], .script ⟨1⟩ [] [⟨20⟩]]

/-- Whether both additions are validated with operands of some types and with reports of some
lengths. -/
def additionComesTo (types : Option TypeId × Option TypeId) (operation assignment : Nat)
    (c : Codebase) (s : Session) : Bool :=
  ((isWritablePlace c ⟨16⟩ { session := s }).toOption.any fun r =>
    r.1 && (Query.operandTypes c ⟨16⟩ ⟨18⟩ r.2.session).toOption.any (·.1 = types)) &&
  (Query.operandTypes c ⟨10⟩ ⟨12⟩ s).toOption.any (·.1 = types) &&
  ((phrase c (within c 0) ⟨13⟩ { session := s }).toOption.any (·.2.report.length = operation)) &&
  ((phrase c (within c 0) ⟨19⟩ { session := s }).toOption.any (·.2.report.length = assignment))

theorem additions_of_test {types : Option TypeId × Option TypeId} {m n : Nat} {s : Session}
    (fits : additionComesTo types m n c s) : ∃ step step' q q' u t t',
      isWritablePlace c ⟨16⟩ { session := s } = .ok (true, u) ∧
      Query.operandTypes c ⟨16⟩ ⟨18⟩ u.session = .ok (types, t) ∧
      Query.operandTypes c ⟨10⟩ ⟨12⟩ s = .ok (types, t') ∧
      phrase c (within c 0) ⟨13⟩ { session := s } = .ok (step', q') ∧ q'.report.length = m ∧
      phrase c (within c 0) ⟨19⟩ { session := s } = .ok (step, q) ∧ q.report.length = n := by
  simp only [additionComesTo, Bool.and_eq_true] at fits
  obtain ⟨⟨⟨writes, asks⟩, operates⟩, assigns⟩ := fits
  obtain ⟨⟨writable, u⟩, written, rest⟩ := exists_ok_of_any writes
  obtain ⟨rfl, asks'⟩ := Bool.and_eq_true_iff.1 rest
  obtain ⟨⟨_, t⟩, asked, same⟩ := exists_ok_of_any asks'
  obtain ⟨⟨_, t'⟩, asked', same'⟩ := exists_ok_of_any asks
  obtain ⟨⟨step', q'⟩, operated, short'⟩ := exists_ok_of_any operates
  obtain ⟨⟨step, q⟩, assigned, short⟩ := exists_ok_of_any assigns
  obtain rfl := of_decide_eq_true same
  obtain rfl := of_decide_eq_true same'
  exact ⟨step, step', q, q', u, t, t', written, asked, asked', operated, of_decide_eq_true short',
    assigned, of_decide_eq_true short⟩

/-- Nothing can be added to a truth value, with either operator. -/
theorem additions_to_bool : ∃ (c : Codebase) (s : Session) (step step' : Step) (q q' u : Progress),
    c.tree = .ofForms (additionForms "Bool" (.int 1)) ∧ c.Bound ∧ c.tree.Grown ∧
    c.tree.Descending ∧ c.tree.Shielded ∧ c.tree.Ordered ∧ s.Arises c ∧
    c.tree.isAssignable ⟨16⟩ = .ok true ∧
    isWritablePlace c ⟨16⟩ { session := s } = .ok (true, u) ∧
    phrase c (within c 0) ⟨19⟩ { session := s } = .ok (step, q) ∧
    phrase c (within c 0) ⟨13⟩ { session := s } = .ok (step', q') ∧
    q.report.length = 1 ∧ q'.report.length = 1 ∧
    (Objects c ⟨19⟩ { session := s } q ↔ Objects c ⟨13⟩ { session := s } q') := by
  obtain ⟨c, s, same, bound, wf, -, -, started, fits⟩ :=
    Query.exists_started (additionForms "Bool" (.int 1))
      (additionComesTo (some Intrinsic.bool.typeId, some Intrinsic.int.typeId) 1 1)
      (by decide +kernel) (by decide +kernel) (by decide +kernel) (by decide +kernel)
  obtain ⟨step, step', q, q', u, t, t', written, asked, asked', operated, short',
    assigned, short⟩ :=
    additions_of_test fits
  have shape : c.tree.isAssignable ⟨16⟩ = .ok true := same ▸ by decide +kernel
  have shielded : c.tree.Shielded := same ▸ by decide +kernel
  have ordered : c.tree.Ordered := same ▸ by decide +kernel
  have assignment : c.tree.form ⟨19⟩ = .ok (.assignment (some ⟨16⟩) .add (some ⟨18⟩)) :=
    same ▸ by decide +kernel
  have operation : c.tree.form ⟨13⟩ = .ok (.binary ⟨10⟩ .add ⟨12⟩) := same ▸ by decide +kernel
  obtain ⟨-, -, verdicts⟩ := assignment_and_operation bound wf.grown wf.descending shielded ordered
    rfl assignment operation shape written { session := s }
  obtain ⟨types, types', typed, typed', verdict⟩ := verdicts step q step' q' assigned operated
  cases asked.symm.trans typed
  cases asked'.symm.trans typed'
  have other : ¬ BinaryOperator.add.LengthensOther (some Intrinsic.bool.typeId)
      (some Intrinsic.int.typeId) := fun h => by cases h.2.1
  refine ⟨c, s, step, step', q, q', u, same, bound, wf.grown, wf.descending, shielded, ordered,
    ⟨s, started, .refl⟩, shape, written, assigned, operated, short, short', ?_⟩
  rw [(verdict rfl).1, or_iff_left other]

/-- A text can be added to a number, but a number that a text is to be added to is objected to. -/
theorem text_added_to_number : ∃ (c : Codebase) (s : Session) (step step' : Step)
    (q q' u : Progress) (types : Option TypeId × Option TypeId) (t t' : Session),
    c.tree = .ofForms (additionForms "Int" (.string "a")) ∧ c.Bound ∧ s.Arises c ∧
    c.tree.isAssignable ⟨16⟩ = .ok true ∧
    isWritablePlace c ⟨16⟩ { session := s } = .ok (true, u) ∧
    Query.operandTypes c ⟨16⟩ ⟨18⟩ u.session = .ok (types, t) ∧
    Query.operandTypes c ⟨10⟩ ⟨12⟩ s = .ok (types, t') ∧
    phrase c (within c 0) ⟨19⟩ { session := s } = .ok (step, q) ∧ q.report.length = 1 ∧
    phrase c (within c 0) ⟨13⟩ { session := s } = .ok (step', q') ∧ q'.report.length = 0 := by
  obtain ⟨c, s, same, bound, -, -, -, started, fits⟩ :=
    Query.exists_started (additionForms "Int" (.string "a"))
      (additionComesTo (some Intrinsic.int.typeId, some Intrinsic.string.typeId) 0 1)
      (by decide +kernel) (by decide +kernel) (by decide +kernel) (by decide +kernel)
  obtain ⟨step, step', q, q', u, t, t', written, asked, asked', operated, none, assigned, one⟩ :=
    additions_of_test fits
  exact ⟨c, s, step, step', q, q', u, _, t, t', same, bound, ⟨s, started, .refl⟩,
    same ▸ by decide +kernel, written, asked, asked', assigned, one, operated, none⟩

end Check

end PapyrusAnalysis
