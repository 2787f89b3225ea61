import PapyrusAnalysis.Proofs.Call
import PapyrusAnalysis.Proofs.Program
import PapyrusAnalysis.Proofs.Session.Membership
import PapyrusAnalysis.Proofs.Validation.Conduct

/-!
# What validating a call adds to the report

The arguments of a call are dealt with one after another. Each of them leads to remarks about its
value and to remarks about the argument itself: that its type does not fit, or that there is
something wrong with its name. At the end it is reported for each required parameter without an
argument that their number is wrong. An account of a call says which fate each argument has and
which remarks go back to it, so that the report is accounted for diagnostic by diagnostic.

## Main definitions

* `Query.Callee`: what a call leads to.
* `Check.Course`: arguments that are dealt with one after another.
* `Check.Account`: how the validation of a call goes.

## Main results

* `Check.call_accounts_for_arguments`: each argument is dealt with once, and so is each diagnostic.
* `Check.silent_call_matches`: how a call binds parameters if nothing is reported about its
  arguments.
-/

namespace PapyrusAnalysis

/-- A diagnostic has a message about a node, with its places filled. -/
def Diagnostic.IsAbout (d : Diagnostic) (t : Tree) (node : NodeId) (message : Message)
    (arguments : List String) : Prop :=
  ∃ range, t.range node = .ok range ∧ Diagnostic.about range message arguments = .ok d

theorem Diagnostic.IsAbout.code {d : Diagnostic} {t : Tree} {node : NodeId} {message : Message}
    {arguments : List String} (h : d.IsAbout t node message arguments) : d.code = message.code := by
  obtain ⟨range, -, made⟩ := h
  obtain ⟨span, rfl⟩ := Binding.exists_eq_plain (congrArg Except.toOption made)
  rfl

/-- An argument is what a node of the tree stands for. -/
def Tree.IsArgument (t : Tree) (argument : Argument) : Prop :=
  ∃ identifier, t.form argument.node = .ok (.argument identifier argument.value) ∧
    identifier.elim (.ok none) t.nameOf = .ok argument.name

/-- Whether a node of the tree stands for an argument as `IsArgument` has it. -/
def Tree.isArgument (t : Tree) (argument : Argument) : Bool :=
  (t.form argument.node).toOption.any fun
    | .argument identifier value =>
      decide (value = argument.value ∧ identifier.elim (.ok none) t.nameOf = .ok argument.name)
    | _ => false

theorem Tree.IsArgument.of_test {t : Tree} {argument : Argument} (h : t.isArgument argument) :
    t.IsArgument argument := by
  obtain ⟨form, hform, fits⟩ := exists_ok_of_any h
  split at fits
  · rename_i identifier value
    obtain ⟨rfl, hname⟩ := of_decide_eq_true fits
    exact ⟨identifier, hform, hname⟩
  · cases fits

/-- The first symbol that an identifier refers to is a function or event with some parameters. To
find it out leads from one session to another. -/
def Query.Callee (c : Codebase) (identifier : NodeId) (s s' : Session)
    (parameters : List Parameter) : Prop :=
  ∃ search callee symbol, symbolsFor c identifier s = .ok (search, s') ∧
    search.symbols.head? = some callee ∧ s'.symbol? c callee = some symbol ∧
    (symbol.kind = .function ∨ symbol.kind = .event) ∧
    symbol.parameters.map (fun id => .ofSymbol id (s'.symbol? c id)) = parameters

/-- Whether an identifier leads to something callable with some parameters. -/
def Query.isCallee (c : Codebase) (identifier : NodeId) (s : Session)
    (parameters : List Parameter) : Bool :=
  (symbolsFor c identifier s).toOption.any fun found => found.1.symbols.head?.any fun callee =>
    (found.2.symbol? c callee).any fun symbol =>
      decide ((symbol.kind = .function ∨ symbol.kind = .event) ∧
        symbol.parameters.map (fun id => .ofSymbol id (found.2.symbol? c id)) = parameters)

theorem Query.Callee.of_run {c : Codebase} {identifier : NodeId} {s : Session}
    {parameters : List Parameter} (h : isCallee c identifier s parameters) :
    ∃ s', Callee c identifier s s' parameters := by
  obtain ⟨⟨search, s'⟩, found, fits⟩ := exists_ok_of_any h
  obtain ⟨callee, first, fits⟩ := (Option.any_eq_true _ _).1 fits
  obtain ⟨symbol, known, fits⟩ := (Option.any_eq_true _ _).1 fits
  obtain ⟨callable, offered⟩ := of_decide_eq_true fits
  exact ⟨s', search, callee, symbol, found, first, known, callable, offered⟩

namespace Check

/-! ## Remarks -/

/-- A value is compared with a place in a session. A diagnostic is due if both have a type and the
one cannot be assigned to the other. It gives the name of the value's type before that of the
place. -/
inductive Fits (c : Codebase) (node : NodeId) (message : Message) :
    Option TypeId → Option TypeId → Session → Report → Session → Prop where
  | unknown {place value : Option TypeId} {s : Session} (h : place = none ∨ value = none) :
      Fits c node message place value s [] s
  | fine {place value : TypeId} {s t : Session}
      (asked : Query.isAssignable c place value s = .ok (true, t)) :
      Fits c node message (some place) (some value) s [] t
  | unfit {place value : TypeId} {s t : Session} {x y : TypeInfo} {d : Diagnostic}
      (asked : Query.isAssignable c place value s = .ok (false, t))
      (expected : t.types.get? place = some x) (given : t.types.get? value = some y)
      (about : d.IsAbout c.tree node message [y.name, x.name]) :
      Fits c node message (some place) (some value) s [d] t

/-- What is added to a report on account of an argument. -/
structure Remarks where
  /-- What there is to report about its value. -/
  value : Report
  /-- What there is to report about the argument itself. -/
  own : Report

def Remarks.all (r : Remarks) : Report := r.value ++ r.own

/-- How an argument is dealt with. For a parameter, its value is validated and then compared with
the parameter. If there is something wrong with its name, that is reported, and nothing else is
done. -/
inductive Effect (c : Codebase) (below : NodeId → Check Unit) :
    Pairing → Progress → Remarks → Progress → Prop where
  | passed {argument : Argument} {parameter : Parameter} {p q : Progress} {s t u : Session}
      {place type : Option TypeId} {nested own : Report}
      (validated : below argument.value p = .ok ((), q)) (added : q.report = p.report ++ nested)
      (expected : parameterType c parameter.symbol q.session = .ok (place, s))
      (given : Query.typeOf c argument.value s = .ok (type, t))
      (fits : Fits c argument.node .argumentNotAssignable place type t own u) :
      Effect c below (.passed argument parameter) p ⟨nested, own⟩
        { q with session := u, report := q.report ++ own }
  | unknownName {argument : Argument} {name : String} {p : Progress} {d : Diagnostic}
      (about : d.IsAbout c.tree argument.node .noSuchOptionalParameter [name]) :
      Effect c below (.unknownName argument name) p ⟨[], [d]⟩ { p with report := p.report ++ [d] }
  | reusedName {argument : Argument} {p : Progress} {d : Diagnostic}
      (about : d.IsAbout c.tree argument.node .optionalNameReused []) :
      Effect c below (.reusedName argument) p ⟨[], [d]⟩ { p with report := p.report ++ [d] }

/-- Arguments are dealt with one after another, each with its remarks. -/
inductive Course (c : Codebase) (below : NodeId → Check Unit) :
    List Pairing → Progress → List Remarks → Progress → Prop where
  | nil {p : Progress} : Course c below [] p [] p
  | cons {fate : Pairing} {fates : List Pairing} {p q u : Progress} {r : Remarks}
      {remarks : List Remarks} (effect : Effect c below fate p r q)
      (rest : Course c below fates q remarks u) : Course c below (fate :: fates) p (r :: remarks) u

/-- How the validation of a call goes that has no more arguments than there are parameters. -/
structure Account (c : Codebase) (below : NodeId → Check Unit) (node : NodeId)
    (parameters : List Parameter) (arguments : List Argument) (p q : Progress) where
  fates : List Pairing
  remarks : List Remarks
  /-- What is reported for required parameters without an argument. -/
  missing : Report
  /-- When all arguments have been dealt with. -/
  last : Progress
  dealt : List.Forall₂ (Call.Fate parameters) arguments fates
  paired : Call.pair parameters arguments =
    fates ++ List.replicate ((Call.required parameters).length - arguments.length) .missing
  course : Course c below fates p remarks last
  lacking : missing.length = (Call.required parameters).length - arguments.length
  about : ∀ d ∈ missing, d.IsAbout c.tree node .wrongNumberOfArguments []
  ends : q = { last with report := last.report ++ missing }

/-- Whether a diagnostic says that the arguments of a call do not match its parameters. -/
def isMismatch (d : Diagnostic) : Bool :=
  [Message.wrongNumberOfArguments.code, Message.noSuchOptionalParameter.code,
    Message.optionalNameReused.code].contains d.code

variable {c : Codebase} {below : NodeId → Check Unit} {node identifier : NodeId} {p q : Progress}
  {s : Session} {parameters : List Parameter} {arguments : List Argument} {depth : Nat}
  {step : Step}

theorem isAbout_of_report {message : Message} {arguments : List String}
    (run : report c node message arguments p = .ok ((), q)) :
    ∃ d, d.IsAbout c.tree node message arguments ∧ q = { p with report := p.report ++ [d] } := by
  obtain ⟨d, range, hrange, made, rfl⟩ := report_eq_ok run
  exact ⟨d, ⟨range, hrange, made⟩, rfl⟩

theorem fits_eq_ok {message : Message} {place value : Option TypeId}
    (run : fits c node message place value p = .ok ((), q)) :
    ∃ own t, Fits c node message place value p.session own t ∧
      q = { p with session := t, report := p.report ++ own } := by
  have unknown (h : place = none ∨ value = none) (same : q = p) :
      ∃ own t, Fits c node message place value p.session own t ∧
        q = { p with session := t, report := p.report ++ own } :=
    ⟨[], p.session, .unknown h, by rw [same, List.append_nil]⟩
  cases place with
  | none =>
    cases run
    exact unknown (.inl rfl) rfl
  | some place =>
    cases value with
    | none =>
      cases run
      exact unknown (.inr rfl) rfl
    | some value =>
      obtain ⟨fine, _, asks, rest⟩ := bind_eq_ok run
      obtain ⟨t, asked, rfl⟩ := ask_eq_ok asks
      cases fine with
      | true =>
        cases rest
        exact ⟨[], t, .fine asked, by rw [List.append_nil]⟩
      | false =>
        obtain ⟨_, _, first, rest⟩ := bind_eq_ok rest
        obtain ⟨rfl, y, given, rfl⟩ := typeName_eq_ok first
        obtain ⟨_, _, second, reported⟩ := bind_eq_ok rest
        obtain ⟨rfl, x, expected, rfl⟩ := typeName_eq_ok second
        obtain ⟨d, about, rfl⟩ := isAbout_of_report reported
        exact ⟨[d], t, .unfit asked expected given about, rfl⟩

/-! ## Dealing with arguments -/

/-- Validation only adds to the report. -/
theorem within_adds {id : NodeId} (run : within c depth id p = .ok ((), q)) :
    ∃ new, q.report = p.report ++ new := by
  obtain ⟨⟨-, new, added, -⟩, -⟩ := steady_within (.any c) depth id trivial run
  exact ⟨new, added⟩

theorem exists_effect (adds : ∀ {id p q}, below id p = .ok ((), q) →
      ∃ new, q.report = p.report ++ new)
    {argument : Argument} {fate : Pairing} (dealt : Call.Fate parameters argument fate)
    (run : pairing c below node fate p = .ok ((), q)) : ∃ r, Effect c below fate p r q := by
  cases dealt with
  | passed =>
    obtain ⟨_, p₁, validated, run⟩ := bind_eq_ok run
    obtain ⟨place, p₂, asks, run⟩ := bind_eq_ok run
    obtain ⟨type, p₃, asks', run⟩ := bind_eq_ok run
    obtain ⟨s, expected, rfl⟩ := ask_eq_ok asks
    obtain ⟨t, given, rfl⟩ := ask_eq_ok asks'
    obtain ⟨own, u, fits, rfl⟩ := fits_eq_ok run
    obtain ⟨nested, added⟩ := adds validated
    exact ⟨⟨nested, own⟩, .passed (q := p₁) validated added expected given fits⟩
  | unknownName =>
    obtain ⟨d, about, rfl⟩ := isAbout_of_report run
    exact ⟨_, .unknownName about⟩
  | reusedName =>
    obtain ⟨d, about, rfl⟩ := isAbout_of_report run
    exact ⟨_, .reusedName about⟩

theorem exists_course (adds : ∀ {id p q}, below id p = .ok ((), q) →
      ∃ new, q.report = p.report ++ new)
    {fates : List Pairing} (dealt : List.Forall₂ (Call.Fate parameters) arguments fates)
    (run : fates.forM (pairing c below node) p = .ok ((), q)) :
    ∃ remarks, Course c below fates p remarks q := by
  induction dealt generalizing p with
  | nil =>
    cases run
    exact ⟨[], .nil⟩
  | cons first _ ih =>
    obtain ⟨_, p₁, head, tail⟩ := bind_eq_ok run
    obtain ⟨r, effect⟩ := exists_effect adds first head
    obtain ⟨remarks, rest⟩ := ih tail
    exact ⟨r :: remarks, .cons effect rest⟩

theorem exists_missing {count : Nat}
    (run : (List.replicate count .missing).forM (pairing c below node) p = .ok ((), q)) :
    ∃ missing : Report, missing.length = count ∧
      (∀ d ∈ missing, d.IsAbout c.tree node .wrongNumberOfArguments []) ∧
      q = { p with report := p.report ++ missing } := by
  induction count generalizing p with
  | zero =>
    cases run
    exact ⟨[], rfl, by simp, by rw [List.append_nil]⟩
  | succ count ih =>
    obtain ⟨_, p₁, head, tail⟩ := bind_eq_ok run
    obtain ⟨d, about, rfl⟩ := isAbout_of_report head
    obtain ⟨missing, length, others, rfl⟩ := ih tail
    refine ⟨d :: missing, by rw [List.length_cons, length], ?_, by simp⟩
    exact List.forall_mem_cons.2 ⟨about, others⟩

theorem Effect.report {fate : Pairing} {r : Remarks} (h : Effect c below fate p r q) :
    q.report = p.report ++ r.all := by
  cases h with
  | passed _ added => simp [Remarks.all, added]
  | unknownName | reusedName => simp [Remarks.all]

theorem Course.report {fates : List Pairing} {remarks : List Remarks}
    (h : Course c below fates p remarks q) :
    q.report = p.report ++ remarks.flatMap Remarks.all := by
  induction h with
  | nil => simp
  | cons effect _ ih => rw [ih, effect.report, List.flatMap_cons, List.append_assoc]

/-! ## Accounts -/

namespace Account

variable (a : Account c below node parameters arguments p q)

/-- What is reported about the arguments and their number, but not about their values. -/
def own : Report := a.remarks.flatMap (·.own) ++ a.missing

/-- The arguments with the parameters that they are compared with. -/
def bound : List (Argument × Parameter) := a.fates.filterMap Call.bound?

theorem report : q.report = p.report ++ a.remarks.flatMap Remarks.all ++ a.missing := by
  have ends : q.report = a.last.report ++ a.missing := congrArg Progress.report a.ends
  rw [ends, a.course.report]

theorem mem_report {d : Diagnostic} (h : d ∈ a.own) : d ∈ q.report := by
  rw [a.report]
  rcases List.mem_append.1 h with hd | hd
  · obtain ⟨r, hr, hd⟩ := List.mem_flatMap.1 hd
    have inside := List.mem_flatMap_of_mem (f := Remarks.all) hr (List.mem_append_right _ hd)
    exact List.mem_append_left _ (List.mem_append_right _ inside)
  · exact List.mem_append_right _ hd

end Account

theorem argumentsOf_of_isArgument (proper : ∀ argument ∈ arguments, c.tree.IsArgument argument) :
    argumentsOf c (arguments.map (·.node)) = .ok (.ok arguments) := by
  induction arguments with
  | nil => rfl
  | cons argument arguments ih =>
    obtain ⟨identifier, hform, hname⟩ := proper argument List.mem_cons_self
    have others := ih fun a ha => proper a (List.mem_cons_of_mem _ ha)
    obtain ⟨node, name, value⟩ := argument
    rw [List.map_cons, argumentsOf, hform, others]
    cases identifier with
    | none =>
      cases hname
      rfl
    | some identifier =>
      exact congrArg (fun o => o >>= fun name =>
        (.ok (.ok (⟨node, name, value⟩ :: arguments)) : Outcome (Except Obstacle _))) hname

theorem parametersOf_ok {callee : SymbolId} {symbol : Symbol}
    (known : p.session.symbol? c callee = some symbol)
    (callable : symbol.kind = .function ∨ symbol.kind = .event) :
    parametersOf c callee p =
      .ok (some (.ok (symbol.parameters.map fun id =>
        .ofSymbol id (p.session.symbol? c id))), p) := by
  have asked : Query.symbol? c callee p.session = .ok (some symbol, p.session) := known ▸ rfl
  have fits : (symbol.kind = .function || symbol.kind = .event : Bool) = true := by
    simpa using callable
  rw [parametersOf, bind_ok (Correspondence.Reporting.ask_ok asked)]
  simp only [fits]
  rfl

/-- Once it is known what a call leads to, its validation is that of its arguments. -/
theorem phrase_eq {nodes : List NodeId} (form : c.tree.form node = .ok (.call identifier nodes))
    (callee : Query.Callee c identifier p.session s parameters) :
    phrase c below node p =
      Check.arguments c below node parameters nodes { p with session := s } := by
  obtain ⟨search, first, symbol, found, hfirst, known, callable, rfl⟩ := callee
  obtain ⟨others, hsymbols⟩ : ∃ others, search.symbols = first :: others := by
    cases h : search.symbols <;> simp_all
  have asked : ask (Query.symbolsFor c identifier) p = .ok (search, { p with session := s }) :=
    Correspondence.Reporting.ask_ok found
  refine (bind_ok (liftM_ok form p)).trans ?_
  dsimp only
  rw [call, bind_ok asked]
  simp only [hsymbols]
  exact bind_ok (parametersOf_ok known callable)

theorem rejected_of_many (many : parameters.length < arguments.length)
    (run : Check.arguments c below node parameters (arguments.map (·.node)) p = .ok (step, q)) :
    step = .skip ∧ ∃ d, d.IsAbout c.tree node .wrongNumberOfArguments [] ∧
      q = { p with report := p.report ++ [d] } := by
  rw [Check.arguments, List.length_map, if_pos many] at run
  obtain ⟨_, _, reported, rest⟩ := bind_eq_ok run
  cases rest
  exact ⟨rfl, isAbout_of_report reported⟩

theorem exists_account (few : arguments.length ≤ parameters.length)
    (proper : ∀ argument ∈ arguments, c.tree.IsArgument argument)
    (run : Check.arguments c (within c depth) node parameters (arguments.map (·.node)) p =
      .ok (step, q)) :
    step = .skip ∧ Nonempty (Account c (within c depth) node parameters arguments p q) := by
  rw [Check.arguments, List.length_map, if_neg (Nat.not_lt.2 few)] at run
  obtain ⟨_, _, read, rest⟩ := bind_eq_ok run
  obtain ⟨found, rfl⟩ := liftM_eq_ok read
  cases found.symm.trans (argumentsOf_of_isArgument proper)
  obtain ⟨_, _, walked, done⟩ := bind_eq_ok rest
  cases done
  obtain ⟨fates, dealt, paired⟩ := Call.pair_fates few
  rw [paired, List.forM_eq_forM, List.forM_append] at walked
  obtain ⟨_, last, first, second⟩ := bind_eq_ok walked
  obtain ⟨remarks, course⟩ := exists_course within_adds dealt first
  obtain ⟨missing, lacking, about, ends⟩ := exists_missing second
  exact ⟨rfl, ⟨{ fates, remarks, missing, last, dealt, paired, course, lacking, about, ends }⟩⟩

/-! ## What becomes of arguments -/

/-- A call of a function or event with too many arguments gets one diagnostic, and nothing else is
done about it. Otherwise there is an account of the call: each argument has one fate, it is dealt
with once, and what is added to the report are the remarks about the arguments in their order and a
diagnostic for each required parameter without an argument. What lies below the call is left out of
the walk. The validation comes to an end, unless the session is too crowded. -/
theorem call_accounts_for_arguments
    (form : c.tree.form node = .ok (.call identifier (arguments.map (·.node))))
    (callee : Query.Callee c identifier p.session s parameters)
    (proper : ∀ argument ∈ arguments, c.tree.IsArgument argument) (depth : Nat) :
    (∀ step q, phrase c (within c depth) node p = .ok (step, q) → step = .skip ∧
      (parameters.length < arguments.length → ∃ d : Diagnostic,
        d.IsAbout c.tree node .wrongNumberOfArguments [] ∧
        q = { p with session := s, report := p.report ++ [d] }) ∧
      (arguments.length ≤ parameters.length →
        ∃ account : Account c (within c depth) node parameters arguments { p with session := s } q,
          q.report = p.report ++ account.remarks.flatMap Remarks.all ++ account.missing)) ∧
    (c.Bound → c.tree.Grown → c.tree.Descending → c.tree.Shielded → c.tree.Ordered →
      p.session.Arises c → node.index ≤ depth →
      Completes (p.session.Crowded c) (phrase c (within c depth) node p)) := by
  refine ⟨fun step q run => ?_, fun bound grown descending shielded ordered arises enough => ?_⟩
  · rw [phrase_eq form callee] at run
    rcases Nat.lt_or_ge parameters.length arguments.length with many | few
    · obtain ⟨skips, rejected⟩ := rejected_of_many many run
      exact ⟨skips, fun _ => rejected, fun few => absurd many (Nat.not_lt.2 few)⟩
    · obtain ⟨skips, ⟨account⟩⟩ := exists_account few proper run
      exact ⟨skips, fun many => absurd many (Nat.not_lt.2 few), fun _ => ⟨account, account.report⟩⟩
  · have hc := bound.sound grown descending shielded
    have law : (Correspondence.strict c (p.session.demand c)).Reporting c :=
      ⟨Correspondence.strict_lawful hc _, fun hn => .inl (ordered _ _ hn)⟩
    obtain ⟨n, hn, -⟩ := Tree.exists_node_of_form form
    refine completes_of_coupled (law.phrase ⟨⟨rfl, arises.sound hc, rfl⟩, rfl, rfl⟩
      (Tree.has_of_node? hn) ?_)
    intro p q rel value has before
    exact law.within rel has (by omega)

/-- A program with four calls of a function that has a required parameter:

    ScriptName A
    Function G(Int a, Int b = 1, Int c = 2, Int d = 3)
    EndFunction
    Function F()
      G(4, e = 5, z, B = 6)
      G(b = 7)
      G(8, c = 9, 10)
      G(8, b = 9, 10)
    EndFunction -/
def callForms : List Form :=
  [.identifier "A", .scriptHeader ⟨0⟩ none ∅, .identifier "G",
    .identifier "int", .typeName ⟨3⟩ false, .identifier "a", .parameter ⟨4⟩ ⟨5⟩ none false,
    .identifier "int", .typeName ⟨7⟩ false, .identifier "b", .literal (.int 1),
    .parameter ⟨8⟩ ⟨9⟩ (some ⟨10⟩) true,
    .identifier "int", .typeName ⟨12⟩ false, .identifier "c", .literal (.int 2),
    .parameter ⟨13⟩ ⟨14⟩ (some ⟨15⟩) true,
    .identifier "int", .typeName ⟨17⟩ false, .identifier "d", .literal (.int 3),
    .parameter ⟨18⟩ ⟨19⟩ (some ⟨20⟩) true,
    .parameterList [⟨6⟩, ⟨11⟩, ⟨16⟩, ⟨21⟩], .functionHeader none ⟨2⟩ ⟨22⟩ ∅, .function ⟨23⟩ [],
    .identifier "F", .parameterList [], .functionHeader none ⟨25⟩ ⟨26⟩ ∅,
    .identifier "G", .literal (.int 4), .literalExpression ⟨29⟩, .argument none ⟨30⟩,
    .identifier "e", .literal (.int 5), .literalExpression ⟨33⟩, .argument (some ⟨32⟩) ⟨34⟩,
    .identifier "z", .reference ⟨36⟩, .argument none ⟨37⟩,
    .identifier "B", .literal (.int 6), .literalExpression ⟨40⟩, .argument (some ⟨39⟩) ⟨41⟩,
    .call ⟨28⟩ [⟨31⟩, ⟨35⟩, ⟨38⟩, ⟨42⟩], .expressionStatement ⟨43⟩,
    .identifier "G", .identifier "b", .literal (.int 7), .literalExpression ⟨47⟩,
    .argument (some ⟨46⟩) ⟨48⟩, .call ⟨45⟩ [⟨49⟩], .expressionStatement ⟨50⟩,
    .identifier "G", .literal (.int 8), .literalExpression ⟨53⟩, .argument none ⟨54⟩,
    .identifier "c", .literal (.int 9), .literalExpression ⟨57⟩, .argument (some ⟨56⟩) ⟨58⟩,
    .literal (.int 10), .literalExpression ⟨60⟩, .argument none ⟨61⟩,
    .call ⟨52⟩ [⟨55⟩, ⟨59⟩, ⟨62⟩], .expressionStatement ⟨63⟩,
    .identifier "G", .literal (.int 8), .literalExpression ⟨66⟩, .argument none ⟨67⟩,
    .identifier "b", .literal (.int 9), .literalExpression ⟨70⟩, .argument (some ⟨69⟩) ⟨71⟩,
    .literal (.int 10), .literalExpression ⟨73⟩, .argument none ⟨74⟩,
    .call ⟨65⟩ [⟨68⟩, ⟨72⟩, ⟨75⟩], .expressionStatement ⟨76⟩,
    .function ⟨27⟩ [⟨44⟩, ⟨51⟩, ⟨64⟩, ⟨77⟩], .script ⟨1⟩ [] [⟨24⟩, ⟨78⟩]]

/-- The parameters of the function that is called. -/
def callParameters : List Parameter :=
  [⟨⟨2⟩, "a", false⟩, ⟨⟨3⟩, "b", true⟩, ⟨⟨4⟩, "c", true⟩, ⟨⟨5⟩, "d", true⟩]

/-- A call of the function with some arguments is validated, which leads to another session and a
report with some messages. -/
structure Trial (c : Codebase) (s : Session) (identifier node : NodeId) (arguments : List Argument)
    (messages : List Message) (s' : Session) (q : Progress) : Prop where
  form : c.tree.form node = .ok (.call identifier (arguments.map (·.node)))
  proper : ∀ argument ∈ arguments, c.tree.IsArgument argument
  callee : Query.Callee c identifier s s' callParameters
  run : ∃ step, phrase c (within c node.index) node { session := s } = .ok (step, q)
  codes : q.report.map (·.code) = messages.map (·.code)

/-- Whether a call is validated with some messages as `Trial` has it. -/
def tries (c : Codebase) (s : Session) (identifier node : NodeId) (arguments : List Argument)
    (messages : List Message) : Bool :=
  decide (c.tree.form node = .ok (.call identifier (arguments.map (·.node)))) &&
    (arguments.all c.tree.isArgument &&
    (Query.isCallee c identifier s callParameters &&
    (phrase c (within c node.index) node { session := s }).toOption.any fun done =>
      done.2.report.map (·.code) = messages.map (·.code)))

theorem exists_trial {messages : List Message} (h : tries c s identifier node arguments messages) :
    ∃ s' q, Trial c s identifier node arguments messages s' q := by
  simp only [tries, Bool.and_eq_true, decide_eq_true_eq, List.all_eq_true] at h
  obtain ⟨form, proper, leads, ends⟩ := h
  obtain ⟨s', callee⟩ := Query.Callee.of_run leads
  obtain ⟨⟨step, q⟩, run, codes⟩ := exists_ok_of_any ends
  exact ⟨s', q, form, fun argument ha => .of_test (proper argument ha), callee, ⟨step, run⟩,
    of_decide_eq_true codes⟩

/-- The arguments of the first call. -/
def mixedArguments : List Argument :=
  [⟨⟨31⟩, none, ⟨30⟩⟩, ⟨⟨35⟩, some "e", ⟨34⟩⟩, ⟨⟨38⟩, none, ⟨37⟩⟩, ⟨⟨42⟩, some "B", ⟨41⟩⟩]

/-- The arguments of the second call. -/
def namingArguments : List Argument := [⟨⟨49⟩, some "b", ⟨48⟩⟩]

/-- The arguments of the third call. -/
def skippingArguments : List Argument :=
  [⟨⟨55⟩, none, ⟨54⟩⟩, ⟨⟨59⟩, some "c", ⟨58⟩⟩, ⟨⟨62⟩, none, ⟨61⟩⟩]

/-- The arguments of the fourth call. -/
def repeatingArguments : List Argument :=
  [⟨⟨68⟩, none, ⟨67⟩⟩, ⟨⟨72⟩, some "b", ⟨71⟩⟩, ⟨⟨75⟩, none, ⟨74⟩⟩]

/-- What the four calls come to. -/
theorem exists_calls : ∃ (c : Codebase) (s : Session), c.tree = .ofForms callForms ∧ c.Bound ∧
    c.tree.WellFormed ∧ s.Arises c ∧
    (∃ s' q, Trial c s ⟨28⟩ ⟨43⟩ mixedArguments
      [.noSuchOptionalParameter, .cannotFindName, .optionalNameReused] s' q) ∧
    (∃ s' q, Trial c s ⟨45⟩ ⟨50⟩ namingArguments [] s' q) ∧
    (∃ s' q, Trial c s ⟨52⟩ ⟨63⟩ skippingArguments [] s' q) ∧
    ∃ s' q, Trial c s ⟨65⟩ ⟨76⟩ repeatingArguments [] s' q := by
  obtain ⟨c, s, same, bound, wf, -, -, arises, fits⟩ := Query.exists_session callForms
    (fun c s => tries c s ⟨28⟩ ⟨43⟩ mixedArguments
        [.noSuchOptionalParameter, .cannotFindName, .optionalNameReused] &&
      (tries c s ⟨45⟩ ⟨50⟩ namingArguments [] && (tries c s ⟨52⟩ ⟨63⟩ skippingArguments [] &&
        tries c s ⟨65⟩ ⟨76⟩ repeatingArguments [])))
    (by decide +kernel) (by decide +kernel) (by decide +kernel) (by decide +kernel)
  simp only [Bool.and_eq_true] at fits
  obtain ⟨first, second, third, fourth⟩ := fits
  exact ⟨c, s, same, bound, wf, arises, exists_trial first, exists_trial second, exists_trial third,
    exists_trial fourth⟩

/-- Two arguments of the first call go to parameters, one of them with a value that cannot be found.
Another one has a name that no parameter has, and the last one that of a parameter that has an
argument. -/
theorem mixed_arguments_are_accounted_for : ∃ (c : Codebase) (s s' : Session) (q : Progress),
    c.tree = .ofForms callForms ∧ c.Bound ∧ s.Arises c ∧
    Trial c s ⟨28⟩ ⟨43⟩ mixedArguments
      [.noSuchOptionalParameter, .cannotFindName, .optionalNameReused] s' q ∧
    (∃ account : Account c (within c 43) ⟨43⟩ callParameters mixedArguments { session := s' } q,
      q.report = account.remarks.flatMap Remarks.all ++ account.missing) ∧
    Completes (s.Crowded c) (phrase c (within c 43) ⟨43⟩ { session := s }) := by
  obtain ⟨c, s, same, bound, wf, arises, ⟨s', q, trial⟩, -⟩ := exists_calls
  obtain ⟨step, run⟩ := trial.run
  obtain ⟨runs, ends⟩ := call_accounts_for_arguments (p := { session := s }) trial.form trial.callee
    trial.proper 43
  obtain ⟨-, -, account⟩ := runs step q run
  exact ⟨c, s, s', q, same, bound, arises, trial, account (by decide),
    ends bound wf.grown wf.descending (same ▸ by decide +kernel) (same ▸ by decide +kernel) arises
      (Nat.le_refl _)⟩

/-! ## Calls about which nothing is reported -/

theorem isMismatch_of_isAbout {d : Diagnostic} {message : Message} {arguments : List String}
    (about : d.IsAbout c.tree node message arguments)
    (h : message ∈ [.wrongNumberOfArguments, .noSuchOptionalParameter, .optionalNameReused]) :
    isMismatch d = true := by
  rw [isMismatch, about.code]
  simp only [List.mem_cons, List.not_mem_nil, or_false] at h
  rcases h with rfl | rfl | rfl <;> decide

/-- An argument about which nothing is reported, except about its type, goes to a parameter. -/
theorem Course.isSome_bound {fates : List Pairing} {remarks : List Remarks}
    (h : Course c below fates p remarks q)
    (silent : ∀ d ∈ remarks.flatMap (·.own), isMismatch d = false) :
    ∀ fate ∈ fates, (Call.bound? fate).isSome := by
  induction h with
  | nil => simp
  | cons effect _ ih =>
    rw [List.flatMap_cons] at silent
    refine List.forall_mem_cons.2 ⟨?_, ih fun d hd => silent d (List.mem_append_right _ hd)⟩
    cases effect with
    | passed => rfl
    | unknownName about | reusedName about =>
      have mismatch := isMismatch_of_isAbout about (by simp)
      simp [silent _ (List.mem_append_left _ (List.mem_singleton_self _))] at mismatch

theorem Account.matched (a : Account c below node parameters arguments p q)
    (distinct : (parameters.map (·.name)).Nodup) (few : arguments.length ≤ parameters.length)
    (silent : ∀ d ∈ a.own, isMismatch d = false) :
    Call.Matched parameters arguments a.bound := by
  have complete : a.missing = [] := by
    refine List.eq_nil_iff_forall_not_mem.2 fun d hd => ?_
    have mismatch := isMismatch_of_isAbout (a.about d hd) (by simp)
    rw [silent d (List.mem_append_right _ hd)] at mismatch
    cases mismatch
  have paired : Call.pair parameters arguments = a.fates := by
    rw [a.paired, ← a.lacking, complete, List.length_nil, List.replicate_zero, List.append_nil]
  rw [Account.bound, ← paired]
  refine Call.pair_matched distinct few ?_
  rw [paired]
  exact a.course.isSome_bound fun d hd => silent d (List.mem_append_left _ hd)

/-- If nothing is reported about the number of arguments of a call and about their names, each
argument goes to a parameter: the required ones take the first arguments, and the optional ones take
the others by name or in order. The call need not be legal: an argument in the place of a required
parameter may have any name, and one without a name may come to a parameter that is given by name.
Without either of these it is legal. -/
theorem silent_call_matches
    (form : c.tree.form node = .ok (.call identifier (arguments.map (·.node))))
    (callee : Query.Callee c identifier p.session s parameters)
    (proper : ∀ argument ∈ arguments, c.tree.IsArgument argument)
    (distinct : (parameters.map (·.name)).Nodup)
    (run : phrase c (within c depth) node p = .ok (step, q)) :
    (parameters.length < arguments.length → ∃ d : Diagnostic, isMismatch d ∧
      d.IsAbout c.tree node .wrongNumberOfArguments [] ∧ q.report = p.report ++ [d]) ∧
    (arguments.length ≤ parameters.length →
      Nonempty (Account c (within c depth) node parameters arguments { p with session := s } q) ∧
      ∀ account : Account c (within c depth) node parameters arguments { p with session := s } q,
        q.report = p.report ++ account.remarks.flatMap Remarks.all ++ account.missing ∧
        ((∀ d ∈ account.own, isMismatch d = false) →
          Call.Matched parameters arguments account.bound ∧
          (Call.Legal parameters account.bound ↔
            ¬ Call.Misnames parameters arguments ∧ ¬ Call.Overlaps parameters arguments))) := by
  rw [phrase_eq form callee] at run
  refine ⟨fun many => ?_, fun few => ⟨(exists_account few proper run).2, fun account => ?_⟩⟩
  · obtain ⟨-, d, about, rfl⟩ := rejected_of_many many run
    exact ⟨d, isMismatch_of_isAbout about (by simp), about, rfl⟩
  · refine ⟨account.report, fun silent => ?_⟩
    have matched := account.matched distinct few silent
    exact ⟨matched, matched.legal_iff distinct⟩

theorem Trial.silent {s' : Session} (trial : Trial c s identifier node arguments [] s' q)
    (account : Account c (within c node.index) node callParameters arguments { session := s' } q) :
    ∀ d ∈ account.own, isMismatch d = false := by
  have nothing : q.report = [] := List.map_eq_nil_iff.1 trial.codes
  intro d hd
  simpa [nothing] using account.mem_report hd

/-- The third call gives the second optional parameter by name and the first one in order. -/
theorem skipping_call_is_legal : ∃ (c : Codebase) (s s' : Session) (q : Progress),
    c.tree = .ofForms callForms ∧ c.Bound ∧ s.Arises c ∧ (callParameters.map (·.name)).Nodup ∧
    Trial c s ⟨52⟩ ⟨63⟩ skippingArguments [] s' q ∧
    ∃ account : Account c (within c 63) ⟨63⟩ callParameters skippingArguments { session := s' } q,
      Call.Matched callParameters skippingArguments account.bound ∧
      Call.Legal callParameters account.bound := by
  obtain ⟨c, s, same, bound, -, arises, -, -, ⟨s', q, trial⟩, -⟩ := exists_calls
  have distinct : (callParameters.map (·.name)).Nodup := by decide
  obtain ⟨step, run⟩ := trial.run
  obtain ⟨-, accounts⟩ := silent_call_matches (p := { session := s }) trial.form trial.callee
    trial.proper distinct run
  obtain ⟨⟨account⟩, judgement⟩ := accounts (by decide)
  obtain ⟨matched, legal⟩ := (judgement account).2 (trial.silent account)
  refine ⟨c, s, s', q, same, bound, arises, distinct, trial, account, matched, legal.2 ⟨?_, ?_⟩⟩
  · rintro ⟨b, hb, name, hname, -⟩
    obtain rfl : b = (⟨⟨55⟩, none, ⟨54⟩⟩, ⟨⟨2⟩, "a", false⟩) := by
      simpa [skippingArguments, callParameters, Call.required] using hb
    cases hname
  · rintro ⟨before, argument, after, split, -, earlier, hearlier, name, hname, reached⟩
    have others : skippingArguments.drop (Call.required callParameters).length =
        [⟨⟨59⟩, some "c", ⟨58⟩⟩, ⟨⟨62⟩, none, ⟨61⟩⟩] := by decide
    rw [others] at split
    rcases before with _ | ⟨first, _ | ⟨next, before⟩⟩
    · cases hearlier
    · obtain ⟨rfl, -⟩ := List.cons_eq_cons.1 split
      obtain rfl := List.mem_singleton.1 hearlier
      cases hname
      exact absurd reached (by decide +kernel)
    · simp at split

theorem Trial.illegal {s' : Session} (trial : Trial c s identifier node arguments [] s' q)
    (few : arguments.length ≤ callParameters.length)
    (fails : Call.Misnames callParameters arguments ∨ Call.Overlaps callParameters arguments) :
    ∃ account : Account c (within c node.index) node callParameters arguments { session := s' } q,
      ¬ Call.Legal callParameters account.bound := by
  obtain ⟨step, run⟩ := trial.run
  rw [phrase_eq (p := { session := s }) trial.form trial.callee] at run
  obtain ⟨-, ⟨account⟩⟩ := exists_account few trial.proper run
  have distinct : (callParameters.map (·.name)).Nodup := by decide
  have matched := account.matched distinct few (trial.silent account)
  refine ⟨account, fun legal => ?_⟩
  obtain ⟨named, apart⟩ := (matched.legal_iff distinct).1 legal
  exact fails.elim named apart

/-- The second call names an optional parameter in the place of the required one, and the fourth
call gives an optional parameter by name and once more in order. Nothing is reported about either,
and neither is legal. -/
theorem illegal_calls_are_overlooked : ∃ (c : Codebase) (s : Session),
    c.tree = .ofForms callForms ∧ c.Bound ∧ s.Arises c ∧ (callParameters.map (·.name)).Nodup ∧
    (∃ s' q, Trial c s ⟨45⟩ ⟨50⟩ namingArguments [] s' q ∧
      ∃ account : Account c (within c 50) ⟨50⟩ callParameters namingArguments { session := s' } q,
        ¬ Call.Legal callParameters account.bound) ∧
    ∃ s' q, Trial c s ⟨65⟩ ⟨76⟩ repeatingArguments [] s' q ∧
      ∃ account : Account c (within c 76) ⟨76⟩ callParameters repeatingArguments
          { session := s' } q,
        ¬ Call.Legal callParameters account.bound := by
  obtain ⟨c, s, same, bound, -, arises, -, ⟨s₁, q₁, second⟩, -, ⟨s₂, q₂, fourth⟩⟩ := exists_calls
  refine ⟨c, s, same, bound, arises, by decide, ⟨s₁, q₁, second, ?_⟩, s₂, q₂, fourth, ?_⟩
  · refine second.illegal (by decide) (.inl ?_)
    exact ⟨(⟨⟨49⟩, some "b", ⟨48⟩⟩, ⟨⟨2⟩, "a", false⟩), by decide, "b", rfl, by decide +kernel⟩
  · refine fourth.illegal (by decide) (.inr ?_)
    exact ⟨[⟨⟨72⟩, some "b", ⟨71⟩⟩], ⟨⟨75⟩, none, ⟨74⟩⟩, [], by decide, rfl,
      ⟨⟨72⟩, some "b", ⟨71⟩⟩, by simp, "b", rfl, by decide +kernel⟩

end Check

end PapyrusAnalysis
