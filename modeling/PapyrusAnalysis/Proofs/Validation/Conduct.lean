import PapyrusAnalysis.Proofs.Session.Asking
import PapyrusAnalysis.Proofs.Tree.Descent
import PapyrusAnalysis.Validation

/-!
# What validations hold on to

A validation asks questions, adds to its report and notes the nodes that it comes to. What questions
keep to in a session, the session of a validation keeps to as well. Only calls lead to other nodes:
whatever else a node says is validated without noting any. Whatever is reported about a name goes
back to an answer to the question what the name can refer to.

## Main definitions

* `Check.Grounds`: what a message about a node rests on.
* `Check.Adds`: a report that is continued.
* `Check.quiet`: validating without coming to other nodes.
* `Check.lively`: validating in any way.
-/

namespace PapyrusAnalysis

/-- Nothing is held on to. -/
def Conduct.any (σ : Type) : Conduct σ where
  keeps _ := True
  grows _ _ := True
  refl _ := trivial
  trans _ _ := trivial
  tolerates _ := True

theorem Query.Steps.any (c : Codebase) : Query.Steps c (Conduct.any Session) where
  scriptType _ _ _ _ _ _ := ⟨trivial, trivial⟩
  arrayOf _ _ _ _ _ _ _ := ⟨trivial, trivial⟩
  pending _ := ⟨trivial, fun _ _ => ⟨trivial, trivial⟩⟩

/-- A walk keeps to what its visits keep to. -/
theorem Steady.walkStack {σ : Type} {C : Conduct σ} {t : Tree}
    {visit : NodeId → StateT σ Outcome Step} (h : ∀ id, Steady C (visit id)) (fuel : Nat)
    (stack : List NodeId) : Steady C (t.walkStack visit fuel stack) := by
  induction fuel generalizing stack with
  | zero =>
    cases stack with
    | nil => exact .pure _
    | cons id stack => exact .throw _
  | succ fuel ih =>
    cases stack with
    | nil => exact .pure _
    | cons id stack =>
      refine .bind (h id) fun step => ?_
      cases step with
      | skip => exact ih stack
      | descend => exact .bind (.lift _) fun form => ih _

namespace Check

variable {c : Codebase} {D : Conduct Session} {α : Type}

/-- Whether a message is about a name that is not found or comes too early. -/
def concernsName (message : Message) : Bool :=
  message.code = Message.cannotFindName.code || message.code = Message.usedBeforeDeclaration.code

/-- What a message about a node rests on. -/
inductive Grounds (c : Codebase) (D : Conduct Session) (node : NodeId) : Message → Prop where
  | other {message : Message} (h : concernsName message = false) : Grounds c D node message
  | unknownType {identifier : NodeId} {isArray : Bool}
      (hform : c.tree.formAt node = some (.typeName identifier isArray)) :
      Grounds c D node .cannotFindName
  /-- A name that leads to nothing. -/
  | unknownName {name : String} {around : Option Form} {s s' : Session} {search : Search}
      (hform : c.tree.formAt node = some (.identifier name))
      (surrounded : phraseAround c node = .ok around) (unlabelled : isLabel node around = false)
      (kept : D.keeps s) (asked : Query.symbolsFor c node s = .ok (search, s'))
      (nothing : search.symbols = []) : Grounds c D node .cannotFindName
  /-- A name that leads to a variable which is declared later. -/
  | earlyUse {name : String} {around : Option Form} {s s' : Session} {search : Search}
      {first : SymbolId} {rest : List SymbolId} {p p' : Progress}
      (hform : c.tree.formAt node = some (.identifier name))
      (surrounded : phraseAround c node = .ok around) (unlabelled : isLabel node around = false)
      (kept : D.keeps s) (asked : Query.symbolsFor c node s = .ok (search, s'))
      (found : search.symbols = first :: rest) (kept' : D.keeps p.session)
      (late : isDeclaredAfter c first node p = .ok (true, p')) :
      Grounds c D node .usedBeforeDeclaration

/-- A diagnostic that a validation can report. -/
def Remark (c : Codebase) (D : Conduct Session) (d : Diagnostic) : Prop :=
  ∃ node message arguments range, Grounds c D node message ∧ c.tree.range node = .ok range ∧
    Diagnostic.about range message arguments = .ok d

theorem Remark.file {d : Diagnostic} (h : Remark c D d) : d.file = none := by
  obtain ⟨node, message, arguments, range, -, -, made⟩ := h
  obtain ⟨span, rfl⟩ := Binding.exists_eq_plain (congrArg Except.toOption made)
  rfl

/-- A report is continued. -/
def Adds (c : Codebase) (D : Conduct Session) (r r' : Report) : Prop :=
  ∃ new, r' = r ++ new ∧ ∀ d ∈ new, Remark c D d

theorem Adds.refl (r : Report) : Adds c D r r := ⟨[], by simp⟩

theorem Adds.trans {r r' r'' : Report} (h : Adds c D r r') (h' : Adds c D r' r'') :
    Adds c D r r'' := by
  obtain ⟨new, rfl, remarks⟩ := h
  obtain ⟨more, rfl, remarks'⟩ := h'
  refine ⟨new ++ more, List.append_assoc .., fun d hd => ?_⟩
  rcases List.mem_append.1 hd with hd | hd
  · exact remarks d hd
  · exact remarks' d hd

/-- The session keeps to a conduct, the report is continued and no node is noted. -/
def quiet (c : Codebase) (D : Conduct Session) : Conduct Progress where
  keeps p := D.keeps p.session
  grows p q := D.grows p.session q.session ∧ Adds c D p.report q.report ∧ q.validated = p.validated
  refl _ := ⟨D.refl _, .refl _, rfl⟩
  trans h h' := ⟨D.trans h.1 h'.1, h.2.1.trans h'.2.1, h'.2.2.trans h.2.2⟩
  tolerates _ := True

/-- The session keeps to a conduct and the report is continued. -/
def lively (c : Codebase) (D : Conduct Session) : Conduct Progress where
  keeps p := D.keeps p.session
  grows p q := D.grows p.session q.session ∧ Adds c D p.report q.report
  refl _ := ⟨D.refl _, .refl _⟩
  trans h h' := ⟨D.trans h.1 h'.1, h.2.trans h'.2⟩
  tolerates _ := True

theorem ofQuiet {x : Check α} (h : Steady (quiet c D) x) : Steady (lively c D) x :=
  h.weaken Iff.rfl fun grown => ⟨grown.1, grown.2.1⟩

theorem ask_eq_ok {question : Query α} {p q : Progress} {a : α}
    (h : ask question p = .ok (a, q)) :
    ∃ s, question p.session = .ok (a, s) ∧ q = { p with session := s } := by
  obtain ⟨_, _, read, rest⟩ := bind_eq_ok h
  cases read
  obtain ⟨⟨b, s⟩, t, asked, rest⟩ := bind_eq_ok rest
  obtain ⟨hrun, rfl⟩ := liftM_eq_ok asked
  cases rest
  exact ⟨s, hrun, rfl⟩

theorem report_eq_ok {node : NodeId} {message : Message} {arguments : List String}
    {p q : Progress} {u : Unit} (h : report c node message arguments p = .ok (u, q)) :
    ∃ d range, c.tree.range node = .ok range ∧ Diagnostic.about range message arguments = .ok d ∧
      q = { p with report := p.report ++ [d] } := by
  obtain ⟨range, t, read, rest⟩ := bind_eq_ok h
  obtain ⟨d, t', made, added⟩ := bind_eq_ok rest
  obtain ⟨hrange, rfl⟩ := liftM_eq_ok read
  obtain ⟨hd, rfl⟩ := liftM_eq_ok made
  cases added
  exact ⟨d, range, hrange, hd, rfl⟩

theorem typeName_eq_ok {type : TypeId} {p q : Progress} {name : String}
    (h : typeName type p = .ok (name, q)) :
    q = p ∧ ∃ info, p.session.types.get? type = some info ∧ name = info.name := by
  obtain ⟨info, _, read, rest⟩ := bind_eq_ok h
  obtain ⟨s, known, rfl⟩ := ask_eq_ok read
  obtain ⟨rfl, found⟩ := Query.typeInfo_eq_ok known
  cases rest
  exact ⟨rfl, info, found, rfl⟩

theorem steady_ask {question : Query α} (h : Steady D question) :
    Steady (quiet c D) (ask question) := by
  intro p a q kept run
  obtain ⟨s, asked, rfl⟩ := ask_eq_ok run
  obtain ⟨grown, kept'⟩ := h kept asked
  exact ⟨⟨grown, .refl _, rfl⟩, kept'⟩

theorem steady_report {node : NodeId} {message : Message} (grounds : Grounds c D node message)
    (arguments : List String) : Steady (quiet c D) (report c node message arguments) := by
  intro p _ q kept run
  obtain ⟨d, range, hrange, made, rfl⟩ := report_eq_ok run
  have remark : Remark c D d := ⟨node, message, arguments, range, grounds, hrange, made⟩
  exact ⟨⟨D.refl _, ⟨[d], rfl, by simpa using remark⟩, rfl⟩, kept⟩

theorem steady_obstruct (node : NodeId) (obstacle : Obstacle) :
    Steady (quiet c D) (obstruct c node obstacle) :=
  .bind (steady_report (.other rfl) _) fun _ => .pure _

theorem steady_reject {message : Message} (other : concernsName message = false) (node : NodeId) :
    Steady (quiet c D) (reject c node message) :=
  .bind (steady_report (.other other) _) fun _ => .pure _

variable (steps : Query.Steps c D)

include steps

theorem steady_plain {question : Query α} (h : Query.Plain c True question) :
    Steady (quiet c D) (ask question) :=
  steady_ask (h.steady steps)

theorem steady_typeName (type : TypeId) : Steady (quiet c D) (typeName type) :=
  .bind (steady_plain steps (.typeInfo type)) fun _ => .pure _

theorem steady_fits {message : Message} (other : concernsName message = false) (node : NodeId)
    (place value : Option TypeId) :
    Steady (quiet c D) (fits c node message place value) := by
  cases place with
  | none => exact .pure _
  | some place =>
    cases value with
    | none => exact .pure _
    | some value =>
      refine .bind (steady_plain steps (.isAssignable place value)) fun fine => ?_
      split
      · exact .pure _
      · refine .bind (steady_typeName steps value) fun _ => ?_
        exact .bind (steady_typeName steps place) fun _ => steady_report (.other other) _

theorem steady_operatorMismatch (node : NodeId) (label : String) (left right : Option TypeId) :
    Steady (quiet c D) (operatorMismatch c node label left right) := by
  cases left with
  | none => exact .pure _
  | some left =>
    cases right with
    | none => exact .pure _
    | some right =>
      refine .bind (steady_typeName steps left) fun _ => ?_
      exact .bind (steady_typeName steps right) fun _ => steady_report (.other rfl) _

theorem steady_initialValue (typeName value : NodeId) :
    Steady (quiet c D) (initialValue c typeName value) := by
  refine .bind (steady_plain steps (.typeOfTypeName typeName)) fun place => ?_
  refine .bind (steady_ask (steps.typeOf value)) fun type => ?_
  exact .bind (steady_fits steps rfl _ _ _) fun _ => .pure _

theorem steady_operands (node left : NodeId) (operator : BinaryOperator) (right : NodeId) :
    Steady (quiet c D) (operands c node left operator right) := by
  refine .bind (steady_ask (steps.typeOf left)) fun left => ?_
  refine .bind (steady_ask (steps.typeOf right)) fun right => ?_
  dsimp only
  split
  · exact .pure _
  · exact .bind (steady_operatorMismatch steps _ _ _ _) fun _ => .pure _

theorem steady_nameOfType {node identifier : NodeId} {isArray : Bool}
    (hform : c.tree.formAt node = some (.typeName identifier isArray)) :
    Steady (quiet c D) (nameOfType c node) := by
  refine .bind (steady_plain steps (.typeOfTypeName node)) fun type => ?_
  dsimp only
  split
  · refine .bind (.lift _) fun name => ?_
    exact .bind (steady_report (.unknownType hform) _) fun _ => .pure _
  · exact .pure _

theorem steady_isDeclaredAfter (id : SymbolId) (node : NodeId) :
    Steady (quiet c D) (isDeclaredAfter c id node) := by
  refine .bind (steady_plain steps (.symbol? id)) fun symbol => ?_
  split
  · split
    · refine .bind (steady_plain steps (.isBlockScoped id)) fun isLocal => ?_
      split
      · split
        · exact .bind (.lift _) fun _ => .bind (.lift _) fun _ => .pure _
        · exact .pure _
      · exact .pure _
    · exact .pure _
  · exact .pure _

theorem steady_identifier {node : NodeId} {name : String}
    (hform : c.tree.formAt node = some (.identifier name)) :
    Steady (quiet c D) (identifier c node name) := by
  intro _ a q kept run
  obtain ⟨around, p, read, run₁⟩ := bind_eq_ok run
  obtain ⟨surrounded, rfl⟩ := liftM_eq_ok read
  dsimp only at run₁
  cases unlabelled : isLabel node around with
  | true =>
    rw [unlabelled] at run₁
    exact Steady.pure _ kept run₁
  | false =>
    rw [unlabelled] at run₁
    obtain ⟨search, p₁, asks, run₂⟩ := bind_eq_ok run₁
    obtain ⟨s, asked, -⟩ := ask_eq_ok asks
    obtain ⟨grown, kept₁⟩ := steady_ask (steps.symbolsFor node) kept asks
    have onward {x : Check Step} (h : Steady (quiet c D) x) (run : x p₁ = .ok (a, q)) :
        (quiet c D).grows p q ∧ (quiet c D).keeps q :=
      (h kept₁ run).imp_left ((quiet c D).trans grown)
    cases found : search.symbols with
    | nil =>
      rw [found] at run₂
      dsimp only at run₂
      split at run₂
      · exact onward (.pure _) run₂
      · have grounds : Grounds c D node .cannotFindName :=
          .unknownName hform surrounded unlabelled kept asked found
        exact onward (.bind (steady_report grounds _) fun _ => .pure _) run₂
    | cons first rest =>
      rw [found] at run₂
      obtain ⟨late, p₂, tested, run₃⟩ := bind_eq_ok run₂
      obtain ⟨grown₁, kept₂⟩ := steady_isDeclaredAfter steps first node kept₁ tested
      have later {x : Check Step} (h : Steady (quiet c D) x) (run : x p₂ = .ok (a, q)) :
          (quiet c D).grows p q ∧ (quiet c D).keeps q :=
        (h kept₂ run).imp_left ((quiet c D).trans ((quiet c D).trans grown grown₁))
      cases late with
      | false => exact later (.pure _) run₃
      | true =>
        have grounds : Grounds c D node .usedBeforeDeclaration :=
          .earlyUse hform surrounded unlabelled kept asked found kept₁ tested
        exact later (.bind (steady_report grounds _) fun _ => .pure _) run₃

theorem steady_isWritablePlace (place : NodeId) : Steady (quiet c D) (isWritablePlace c place) := by
  refine .bind (.lift _) fun name => ?_
  split
  · exact steady_ask (steps.isWritable _)
  · exact .pure _

theorem steady_sides (node left : NodeId) (operator : AssignmentOperator) (right : NodeId) :
    Steady (quiet c D) (sides c node left operator right) := by
  refine .bind (steady_ask (steps.typeOf left)) fun place => ?_
  refine .bind (steady_ask (steps.typeOf right)) fun value => ?_
  dsimp only
  split
  · exact .bind (steady_fits steps rfl _ _ _) fun _ => .pure _
  · split
    · exact .pure _
    · exact .bind (steady_operatorMismatch steps _ _ _ _) fun _ => .pure _

theorem steady_assignment (node : NodeId) (left : Option NodeId) (operator : AssignmentOperator)
    (right : Option NodeId) : Steady (quiet c D) (assignment c node left operator right) := by
  cases left with
  | none => exact steady_reject rfl _
  | some place =>
    refine .bind (.lift _) fun fine => ?_
    split
    · exact steady_reject rfl _
    refine .bind (steady_isWritablePlace steps place) fun writable => ?_
    split
    · exact steady_reject rfl _
    cases right with
    | none => exact steady_reject rfl _
    | some value => exact steady_sides steps _ _ _ _

theorem steady_parametersOf (id : SymbolId) : Steady (quiet c D) (parametersOf c id) := by
  refine .bind (steady_plain steps (.symbol? id)) fun symbol => ?_
  split
  · split
    · exact .bind .get fun _ => .pure _
    · exact .pure _
  · exact .pure _

theorem steady_parameterType (id : SymbolId) : Steady D (parameterType c id) := by
  refine .bind (steps.plain (.symbol? id)) fun symbol => ?_
  split
  · rename_i symbol
    dsimp only
    cases symbol.declaration with
    | none => exact steps.declaredType id
    | some declaration =>
      refine .bind (.bind (.lift _) fun _ => .pure _) fun form => ?_
      split
      · exact steps.plain (.typeOfTypeName _)
      · exact steps.declaredType id
  · exact .pure _

/-! ## Calls -/

variable {below : NodeId → Check Unit}

theorem steady_passed (h : ∀ id, Steady (lively c D) (below id)) (argument : Argument)
    (parameter : Parameter) : Steady (lively c D) (passed c below argument parameter) := by
  refine .bind (h argument.value) fun _ => ofQuiet ?_
  refine .bind (steady_ask (steady_parameterType steps parameter.symbol)) fun place => ?_
  refine .bind (steady_ask (steps.typeOf argument.value)) fun value => ?_
  exact steady_fits steps rfl _ _ _

theorem steady_pairing (h : ∀ id, Steady (lively c D) (below id)) (call : NodeId)
    (pairing : Pairing) : Steady (lively c D) (Check.pairing c below call pairing) := by
  cases pairing with
  | passed argument parameter => exact steady_passed steps h argument parameter
  | missing | unknownName | reusedName => exact ofQuiet (steady_report (.other rfl) _)

theorem steady_arguments (h : ∀ id, Steady (lively c D) (below id)) (node : NodeId)
    (parameters : List Parameter) (args : List NodeId) :
    Steady (lively c D) (arguments c below node parameters args) := by
  unfold arguments
  split
  · exact ofQuiet (steady_reject rfl _)
  refine .bind (.lift _) fun found => ?_
  cases found with
  | error obstacle => exact ofQuiet (steady_obstruct _ _)
  | ok found => exact .bind (.forM fun p _ => steady_pairing steps h node p) fun _ => .pure _

theorem steady_call (h : ∀ id, Steady (lively c D) (below id)) (node identifier : NodeId)
    (args : List NodeId) : Steady (lively c D) (call c below node identifier args) := by
  refine .bind (ofQuiet (steady_ask (steps.symbolsFor identifier))) fun search => ?_
  split
  · exact .pure _
  refine .bind (ofQuiet (steady_parametersOf steps _)) fun found => ?_
  split
  · exact .pure _
  · exact ofQuiet (steady_obstruct _ _)
  · exact steady_arguments steps h _ _ _

/-! ## Nodes and trees -/

/-- What is no call is validated without coming to other nodes. -/
theorem steady_phrase_quiet {node : NodeId}
    (h : ∀ identifier args, c.tree.form node ≠ .ok (.call identifier args)) :
    Steady (quiet c D) (phrase c below node) := by
  intro p a q kept run
  obtain ⟨form, t, read, rest⟩ := bind_eq_ok run
  obtain ⟨hform, rfl⟩ := liftM_eq_ok read
  obtain ⟨n, hn, formed⟩ := Tree.exists_node_of_form hform
  have formAt := formed ▸ Tree.formAt_eq hn
  have quietly {x : Check Step} (hx : Steady (quiet c D) x) (same : x t = .ok (a, q)) :
      (quiet c D).grows t q ∧ (quiet c D).keeps q := hx kept same
  split at rest
  · exact quietly (steady_initialValue steps _ _) rest
  · exact quietly (steady_nameOfType steps formAt) rest
  · exact quietly (steady_identifier steps formAt) rest
  · exact quietly (steady_operands steps _ _ _ _) rest
  · exact quietly (steady_assignment steps _ _ _ _) rest
  · exact absurd hform (h _ _)
  · exact quietly (.pure _) rest

theorem steady_phrase (h : ∀ id, Steady (lively c D) (below id)) (node : NodeId) :
    Steady (lively c D) (phrase c below node) := by
  by_cases isCall : ∃ identifier args, c.tree.form node = .ok (.call identifier args)
  · obtain ⟨identifier, args, hform⟩ := isCall
    unfold phrase
    rw [hform]
    exact steady_call steps h node identifier args
  · exact ofQuiet (steady_phrase_quiet steps fun identifier args hform =>
      isCall ⟨identifier, args, hform⟩)

omit steps in
theorem steady_note (node : NodeId) : Steady (lively c D)
    (modify fun p => { p with validated := node :: p.validated } : Check Unit) := by
  rintro p _ _ kept ⟨⟩
  exact ⟨⟨D.refl _, .refl _⟩, kept⟩

theorem steady_within (depth : Nat) (root : NodeId) :
    Steady (lively c D) (within c depth root) := by
  induction depth generalizing root with
  | zero => exact .throw _
  | succ depth ih =>
    refine Steady.walkStack (fun id => ?_) _ _
    exact .bind (steady_note id) fun _ => steady_phrase steps ih id

omit steps in
theorem validate_eq_ok {root : NodeId} {s s' : Session} {report : Report}
    (h : Query.validate c root s = .ok (report, s')) :
    ∃ q, tree c root { session := s } = .ok ((), q) ∧ q.session = s' ∧ q.report = report := by
  obtain ⟨_, _, read, asked⟩ := bind_eq_ok h
  cases read
  obtain ⟨⟨_, q⟩, _, lifted, rest⟩ := bind_eq_ok asked
  obtain ⟨run, rfl⟩ := liftM_eq_ok lifted
  cases rest
  exact ⟨q, run, rfl, rfl⟩

/-- Everything that a validation reports has its grounds. -/
theorem remark_of_validate {root : NodeId} {s s' : Session} {report : Report} (kept : D.keeps s)
    (run : Query.validate c root s = .ok (report, s')) : ∀ d ∈ report, Remark c D d := by
  obtain ⟨q, checked, -, rfl⟩ := validate_eq_ok run
  obtain ⟨⟨-, new, added, remarks⟩, -⟩ :=
    steady_within steps _ root (s := { session := s }) kept checked
  rw [List.nil_append] at added
  exact added ▸ remarks

theorem steady_validate (root : NodeId) : Steady D (Query.validate c root) := by
  intro s report s' kept run
  obtain ⟨q, checked, rfl, -⟩ := validate_eq_ok run
  obtain ⟨grown, kept'⟩ := steady_within steps _ root (s := { session := s }) kept checked
  exact ⟨grown.1, kept'⟩

end Check

end PapyrusAnalysis
