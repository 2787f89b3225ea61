import PapyrusAnalysis.Program
import PapyrusAnalysis.Proofs.Tree.Descent
import PapyrusAnalysis.Proofs.Validation.Conduct

/-!
# Every node is validated once

A walk comes to a node and then to its parts, unless the node says to leave them out. A call that
does so has the values of its arguments validated on its own. Each of them lies below an argument of
its own, so that no node is come to twice, and a walk leaves out nothing but what lies below a node
that `Closes`.

## Main definitions

* `Check.Closes`: a node below which a walk does not go on.
* `Check.visits`: the nodes that a walk comes to, with the session at that time.
* `Check.Covers`: nodes that were validated in a walk from a node.
-/

namespace PapyrusAnalysis

/-! ## Arguments that are passed -/

namespace Call

/-- The argument that a parameter gets. -/
def passed? : Pairing → Option Argument
  | .passed argument _ => some argument
  | _ => none

theorem passed_pairRequired (parameters : List Parameter) (arguments : List Argument) :
    (pairRequired parameters arguments).filterMap passed? = arguments.take parameters.length := by
  induction parameters generalizing arguments with
  | nil => rfl
  | cons parameter parameters ih =>
    cases arguments with
    | nil => simpa [pairRequired, passed?] using ih []
    | cons argument arguments => simpa [pairRequired, passed?] using ih arguments

theorem passed_pairOptional (optional queue : List Parameter) (used : List String)
    (arguments : List Argument) :
    ((pairOptional optional queue used arguments).filterMap passed?).Sublist arguments := by
  induction arguments generalizing queue used with
  | nil => cases queue <;> exact .slnil
  | cons argument arguments ih =>
    unfold pairOptional
    split
    · exact (ih _ _).cons _
    · exact (ih _ _).cons_cons _
    · split
      · exact (ih _ _).cons _
      · split
        · exact (ih _ _).cons _
        · exact (ih _ _).cons_cons _

/-- An argument goes to one parameter at most. -/
theorem passed_pair (parameters : List Parameter) (arguments : List Argument) :
    ((pair parameters arguments).filterMap passed?).Sublist arguments := by
  unfold pair
  rw [List.partition_eq_filter_filter]
  dsimp only
  rw [List.filterMap_append, passed_pairRequired]
  conv => rhs; rw [← List.take_append_drop (parameters.filter (not ∘ (·.isOptional))).length
    arguments]
  exact (List.Sublist.refl _).append (passed_pairOptional _ _ _ _)

end Call

namespace Check

variable {c : Codebase} {below : NodeId → Check Unit} {id : NodeId} {node : Node} {p q : Progress}
  {step : Step}

/-! ## Nodes that leave out what lies below them -/

/-- A node below which a walk does not go on, if it comes to the node in some session: the name of a
type, an assignment without a place that can be written to or without a value, and a call of a
function or event. A call with something else among its arguments is no such node, unless it has too
many of them. -/
inductive Closes (c : Codebase) (s : Session) (id : NodeId) : Prop
  | typeName {name : NodeId} {isArray : Bool} (h : c.tree.form id = .ok (.typeName name isArray))
  | noPlace {operator : AssignmentOperator} {right : Option NodeId}
      (h : c.tree.form id = .ok (.assignment none operator right))
  | notAPlace {place : NodeId} {operator : AssignmentOperator} {right : Option NodeId}
      (h : c.tree.form id = .ok (.assignment (some place) operator right))
      (other : c.tree.isAssignable place = .ok false)
  | readOnly {place name : NodeId} {operator : AssignmentOperator} {right : Option NodeId}
      {s' : Session} (h : c.tree.form id = .ok (.assignment (some place) operator right))
      (named : c.tree.assignedName place = .ok (some name))
      (fixed : Query.isWritable c name s = .ok (false, s'))
  | noValue {left : Option NodeId} {operator : AssignmentOperator}
      (h : c.tree.form id = .ok (.assignment left operator none))
  | call {identifier : NodeId} {args : List NodeId} {search : Search} {callee : SymbolId}
      {symbol : Symbol} {s' : Session} (h : c.tree.form id = .ok (.call identifier args))
      (asked : Query.symbolsFor c identifier s = .ok (search, s'))
      (first : search.symbols.head? = some callee) (known : s'.symbol? c callee = some symbol)
      (callable : symbol.kind = .function ∨ symbol.kind = .event)
      (taken : symbol.parameters.length < args.length ∨
        ∀ node ∈ args, ∃ name value, c.tree.form node = .ok (.argument name value))

theorem initialValue_descends (typeName value : NodeId) :
    Yields (initialValue c typeName value) (· = .descend) :=
  .bind fun _ => .bind fun _ => .bind fun _ => .pure rfl

theorem operands_descends (node left : NodeId) (operator : BinaryOperator) (right : NodeId) :
    Yields (operands c node left operator right) (· = .descend) := by
  refine .bind fun left => .bind fun right => ?_
  dsimp only
  split
  · exact .pure rfl
  · exact .bind fun _ => .pure rfl

theorem identifier_descends (node : NodeId) (name : String) :
    Yields (identifier c node name) (· = .descend) := by
  refine .bind fun around => ?_
  dsimp only
  split
  · exact .pure rfl
  refine .bind fun search => ?_
  split
  · split
    · exact .pure rfl
    · exact .bind fun _ => .pure rfl
  · refine .bind fun late => ?_
    split
    · exact .bind fun _ => .pure rfl
    · exact .pure rfl

theorem sides_descends (node left : NodeId) (operator : AssignmentOperator) (right : NodeId) :
    Yields (sides c node left operator right) (· = .descend) := by
  refine .bind fun place => .bind fun value => ?_
  dsimp only
  split
  · exact .bind fun _ => .pure rfl
  · split
    · exact .pure rfl
    · exact .bind fun _ => .pure rfl

theorem closes_of_assignment {left right : Option NodeId} {operator : AssignmentOperator}
    (hform : c.tree.form id = .ok (.assignment left operator right))
    (run : assignment c id left operator right p = .ok (.skip, q)) : Closes c p.session id := by
  cases left with
  | none => exact .noPlace hform
  | some place =>
    obtain ⟨fine, t, read, rest⟩ := bind_eq_ok run
    obtain ⟨hfine, rfl⟩ := liftM_eq_ok read
    cases fine with
    | false => exact .notAPlace hform hfine
    | true =>
      obtain ⟨writable, u, asked, rest'⟩ := bind_eq_ok rest
      cases writable with
      | false =>
        obtain ⟨name, v, named, question⟩ := bind_eq_ok asked
        obtain ⟨hname, rfl⟩ := liftM_eq_ok named
        cases name with
        | none => cases question
        | some name =>
          obtain ⟨s', fixed, -⟩ := ask_eq_ok question
          exact .readOnly hform hname fixed
      | true =>
        cases right with
        | none => exact .noValue hform
        | some value => cases sides_descends id place operator value rest'

/-! ## Calls -/

theorem parametersOf_eq_ok {callee : SymbolId} {parameters : List Parameter}
    (run : parametersOf c callee p = .ok (some (.ok parameters), q)) : q = p ∧
      ∃ symbol, p.session.symbol? c callee = some symbol ∧
        (symbol.kind = .function ∨ symbol.kind = .event) ∧
        parameters.length = symbol.parameters.length := by
  obtain ⟨found, t, asked, rest⟩ := bind_eq_ok run
  obtain ⟨s, read, rfl⟩ := ask_eq_ok asked
  cases read
  cases hsymbol : p.session.symbol? c callee with
  | none => rw [hsymbol] at rest; cases rest
  | some symbol =>
    rw [hsymbol] at rest
    dsimp only at rest
    split at rest
    · rename_i callable
      cases rest
      exact ⟨rfl, symbol, rfl, by simpa using callable, by simp⟩
    · cases rest

theorem argumentsOf_eq_ok {nodes : List NodeId} {found : List Argument}
    (h : argumentsOf c nodes = .ok (.ok found)) : found.map (·.node) = nodes ∧
      ∀ argument ∈ found, ∃ name,
        c.tree.form argument.node = .ok (.argument name argument.value) := by
  induction nodes generalizing found with
  | nil =>
    cases h
    simp
  | cons node rest ih =>
    obtain ⟨form, hform, read⟩ := exists_of_bind_eq_ok h
    split at read
    · rename_i identifier value
      have extended (name : Option String) (run : argumentsOf c rest >>= (fun others =>
          .ok (others.map ((⟨node, name, value⟩ : Argument) :: ·))) = .ok (.ok found)) :
          found.map (·.node) = node :: rest ∧ ∀ argument ∈ found, ∃ name,
            c.tree.form argument.node = .ok (.argument name argument.value) := by
        obtain ⟨others, hothers, same⟩ := exists_of_bind_eq_ok run
        cases others with
        | error => cases same
        | ok others =>
          cases same
          obtain ⟨nodes, forms⟩ := ih hothers
          refine ⟨by simp [nodes], fun argument hm => ?_⟩
          rcases List.mem_cons.1 hm with rfl | hm
          · exact ⟨identifier, hform⟩
          · exact forms argument hm
      cases identifier with
      | none => exact extended none read
      | some identifier =>
        obtain ⟨name, -, run⟩ := exists_of_bind_eq_ok read
        exact extended name run
    · cases read

/-- A way of validating trees that comes to no node twice and to nothing outside. -/
def Tidy (c : Codebase) (below : NodeId → Check Unit) : Prop :=
  ∀ ⦃id p q⦄, c.tree.Has id → below id p = .ok ((), q) → ∃ new, q.validated = new ++ p.validated ∧
    new.Nodup ∧ ∀ x ∈ new, c.tree.Within x id

theorem pairing_validated (tidy : Tidy c below) {pairing : Pairing}
    (has : ∀ argument ∈ (Call.passed? pairing).toList, c.tree.Has argument.value)
    (run : Check.pairing c below id pairing p = .ok ((), q)) :
    ∃ new, q.validated = new ++ p.validated ∧ new.Nodup ∧
      ∀ x ∈ new, ∃ argument ∈ (Call.passed? pairing).toList, c.tree.Within x argument.value := by
  have quietly {x : Check Unit} (hx : Steady (quiet c (.any _)) x) (t : Progress)
      (same : x t = .ok ((), q)) : q.validated = t.validated := (hx trivial same).1.2.2
  cases pairing with
  | passed argument parameter =>
    obtain ⟨_, t, walked, rest⟩ := bind_eq_ok run
    obtain ⟨new, added, once, inside⟩ := tidy (has argument (by simp [Call.passed?])) walked
    refine ⟨new, ?_, once, fun x hx => ⟨argument, by simp [Call.passed?], inside x hx⟩⟩
    rw [← added]
    refine quietly ?_ t rest
    refine .bind (steady_ask (steady_parameterType (.any c) _)) fun place => ?_
    exact .bind (steady_ask ((Query.Steps.any c).typeOf _)) fun value =>
      steady_fits (.any c) rfl _ _ _
  | missing | unknownName | reusedName =>
    exact ⟨[], quietly (steady_report (.other rfl) _) p run, .nil, by simp⟩

/-- The value of an argument lies below it. -/
theorem value_within (wf : c.tree.WellFormed) {argument : Argument} {name : Option NodeId}
    (h : c.tree.form argument.node = .ok (.argument name argument.value)) :
    c.tree.Has argument.value ∧
      ∀ {x}, c.tree.Within x argument.value → c.tree.Within x argument.node := by
  obtain ⟨part, hpart, hf⟩ := Tree.exists_node_of_form h
  have child : argument.value ∈ part.form.children := by simp [hf, Form.children]
  exact ⟨wf.descending.has hpart child, wf.within_of_part hpart child⟩

/-- The values of different arguments lie below different parts of a call. -/
theorem pairings_validated (wf : c.tree.WellFormed) (tidy : Tidy c below)
    (hn : c.tree.node? id = some node) {pairings : List Pairing}
    (once : ((pairings.filterMap Call.passed?).map (·.node)).Nodup)
    (parts : ∀ argument ∈ pairings.filterMap Call.passed?, argument.node ∈ node.form.children ∧
      ∃ name, c.tree.form argument.node = .ok (.argument name argument.value))
    (run : pairings.forM (pairing c below id) p = .ok ((), q)) :
    ∃ new, q.validated = new ++ p.validated ∧ new.Nodup ∧
      ∀ x ∈ new, ∃ argument ∈ pairings.filterMap Call.passed?, c.tree.Within x argument.node := by
  induction pairings generalizing p with
  | nil =>
    cases run
    exact ⟨[], rfl, .nil, by simp⟩
  | cons pairing rest ih =>
    have split : (pairing :: rest).filterMap Call.passed? =
        (Call.passed? pairing).toList ++ rest.filterMap Call.passed? := by
      cases h : Call.passed? pairing <;> simp [h]
    rw [split] at once parts ⊢
    rw [List.map_append, List.nodup_append] at once
    obtain ⟨_, t, first, others⟩ := bind_eq_ok run
    obtain ⟨new, added, nodup, inside⟩ := pairing_validated tidy (fun argument hm => by
      obtain ⟨-, name, hform⟩ := parts argument (List.mem_append_left _ hm)
      exact (value_within wf hform).1) first
    obtain ⟨more, added', nodup', inside'⟩ := ih once.2.1
      (fun argument hm => parts argument (List.mem_append_right _ hm)) others
    have below : ∀ x ∈ new, ∃ argument ∈ (Call.passed? pairing).toList,
        c.tree.Within x argument.node := by
      intro x hx
      obtain ⟨argument, hm, within⟩ := inside x hx
      obtain ⟨-, name, hform⟩ := parts argument (List.mem_append_left _ hm)
      exact ⟨argument, hm, (value_within wf hform).2 within⟩
    refine ⟨more ++ new, by rw [added', added, List.append_assoc], ?_, ?_⟩
    · refine List.nodup_append.2 ⟨nodup', nodup, ?_⟩
      rintro x hx _ hy rfl
      obtain ⟨a, ha, wa⟩ := inside' x hx
      obtain ⟨b, hb, wb⟩ := below x hy
      have same := wf.parts_disjoint hn (parts a (List.mem_append_right _ ha)).1
        (parts b (List.mem_append_left _ hb)).1 wa wb
      exact once.2.2 _ (List.mem_map_of_mem hb) _ (List.mem_map_of_mem ha) same.symm
    · intro x hx
      rcases List.mem_append.1 hx with hx | hx
      · obtain ⟨a, ha, wa⟩ := inside' x hx
        exact ⟨a, List.mem_append_right _ ha, wa⟩
      · obtain ⟨b, hb, wb⟩ := below x hx
        exact ⟨b, List.mem_append_left _ hb, wb⟩

/-! ## Nodes -/

/-- What validating a node notes besides the node itself, and when the walk is to go on below it:
always, unless the node is `closed`. -/
structure Visited (c : Codebase) (id : NodeId) (closed : Prop) (old : List NodeId) (step : Step)
    (q : Progress) (new : List NodeId) : Prop where
  validated : q.validated = new ++ old
  once : new.Nodup
  inside : ∀ x ∈ new, x ≠ id ∧ c.tree.Within x id
  descend : step = .descend → new = []
  skip : step = .skip → closed

variable {closed : Prop}

theorem visited_of_quiet {x : Check Step} (h : Steady (quiet c (.any _)) x)
    (run : x p = .ok (step, q)) (skip : step = .skip → closed) :
    Visited c id closed p.validated step q [] where
  validated := (h trivial run).1.2.2
  once := .nil
  inside := by simp
  descend _ := rfl
  skip := skip

theorem Visited.stays : Visited c id closed q.validated .descend q [] where
  validated := rfl
  once := .nil
  inside := by simp
  descend _ := rfl
  skip h := by cases h

theorem obstruct_descends (node : NodeId) (obstacle : Obstacle) :
    Yields (obstruct c node obstacle) (· = .descend) := .bind fun _ => .pure rfl

theorem arguments_visited (wf : c.tree.WellFormed) (tidy : Tidy c below)
    (hn : c.tree.node? id = some node) {parameters : List Parameter} {args : List NodeId}
    (parts : args.Sublist node.form.children)
    (closes : parameters.length < args.length ∨
      (∀ node ∈ args, ∃ name value, c.tree.form node = .ok (.argument name value)) → closed)
    (run : arguments c below id parameters args p = .ok (step, q)) :
    ∃ new, Visited c id closed p.validated step q new := by
  unfold arguments at run
  split at run
  · rename_i many
    exact ⟨[], visited_of_quiet (steady_reject rfl _) run fun _ => closes (.inl many)⟩
  obtain ⟨answer, t, read, rest⟩ := bind_eq_ok run
  obtain ⟨hanswer, rfl⟩ := liftM_eq_ok read
  cases answer with
  | error obstacle =>
    refine ⟨[], visited_of_quiet (steady_obstruct _ _) rest fun skip => ?_⟩
    obtain ⟨_, _, -, descend⟩ := bind_eq_ok rest
    cases descend
    cases skip
  | ok found =>
    obtain ⟨_, u, walked, skipped⟩ := bind_eq_ok rest
    cases skipped
    obtain ⟨nodes, forms⟩ := argumentsOf_eq_ok hanswer
    have passed := Call.passed_pair parameters found
    have known : ∀ argument ∈ (Call.pair parameters found).filterMap Call.passed?,
        argument.node ∈ node.form.children ∧
          ∃ name, c.tree.form argument.node = .ok (.argument name argument.value) := by
      intro argument hm
      refine ⟨parts.subset ?_, forms argument (passed.subset hm)⟩
      rw [← nodes]
      exact List.mem_map_of_mem (passed.subset hm)
    have once : (((Call.pair parameters found).filterMap Call.passed?).map (·.node)).Nodup := by
      have nodup : (found.map (·.node)).Nodup := nodes ▸ parts.nodup (wf.once.nodup hn)
      exact (passed.map _).nodup nodup
    obtain ⟨new, added, nodup, inside⟩ := pairings_validated wf tidy hn once known walked
    refine ⟨new, added, nodup, fun x hx => ?_, fun h => (by cases h), fun _ => closes (.inr ?_)⟩
    · obtain ⟨argument, hm, within⟩ := inside x hx
      obtain ⟨child, -⟩ := known argument hm
      refine ⟨?_, wf.within_of_part hn child within⟩
      rintro rfl
      exact wf.not_within_part hn child within
    · intro node hm
      rw [← nodes] at hm
      obtain ⟨argument, ha, rfl⟩ := List.mem_map.1 hm
      obtain ⟨name, hform⟩ := forms argument ha
      exact ⟨name, _, hform⟩

theorem call_visited (wf : c.tree.WellFormed) (tidy : Tidy c below)
    (hn : c.tree.node? id = some node) {identifier : NodeId} {args : List NodeId}
    (hform : node.form = .call identifier args)
    (run : call c below id identifier args p = .ok (step, q)) :
    ∃ new, Visited c id (Closes c p.session id) p.validated step q new := by
  obtain ⟨search, t, asked, rest⟩ := bind_eq_ok run
  obtain ⟨s, found, rfl⟩ := ask_eq_ok asked
  cases hsymbols : search.symbols with
  | nil =>
    rw [hsymbols] at rest
    cases rest
    exact ⟨[], Visited.stays (q := { p with session := s })⟩
  | cons callee others =>
    rw [hsymbols] at rest
    obtain ⟨answer, u, answered, last⟩ := bind_eq_ok rest
    have same : u.validated = p.validated :=
      (steady_parametersOf (.any c) callee trivial answered).1.2.2
    rw [← same]
    split at last
    · cases last
      exact ⟨[], .stays⟩
    · refine ⟨[], visited_of_quiet (steady_obstruct _ _) last fun skip => ?_⟩
      cases skip.symm.trans (obstruct_descends _ _ last)
    · rename_i parameters
      obtain ⟨rfl, symbol, known, callable, length⟩ := parametersOf_eq_ok answered
      have form : c.tree.form id = .ok (.call identifier args) := hform ▸ Tree.form_eq_ok hn
      refine arguments_visited wf tidy hn (by simp [hform, Form.children]) (fun taken => ?_) last
      rw [length] at taken
      exact .call form found (by simp [hsymbols]) known callable taken

/-- Validating a node notes the node and nodes below it, these only if the walk does not come to
them itself. -/
theorem node_visited (wf : c.tree.WellFormed) (tidy : Tidy c below)
    (hn : c.tree.node? id = some node) (run : Check.node c below id p = .ok (step, q)) :
    ∃ new, Visited c id (Closes c p.session id) (id :: p.validated) step q new := by
  obtain ⟨_, t, noted, phrased⟩ := bind_eq_ok run
  cases noted
  by_cases isCall : ∃ identifier args, node.form = .call identifier args
  · obtain ⟨identifier, args, hform⟩ := isCall
    obtain ⟨form, u, read, rest⟩ := bind_eq_ok phrased
    obtain ⟨hread, rfl⟩ := liftM_eq_ok read
    cases (hform ▸ Tree.form_eq_ok hn : c.tree.form id = _).symm.trans hread
    exact call_visited wf tidy hn hform rest
  · have other : ∀ identifier args, c.tree.form id ≠ .ok (.call identifier args) := by
      intro identifier args hform
      exact isCall ⟨identifier, args, Except.ok.inj ((Tree.form_eq_ok hn).symm.trans hform)⟩
    refine ⟨[], visited_of_quiet (steady_phrase_quiet (.any c) other) phrased ?_⟩
    rintro rfl
    obtain ⟨form, u, read, rest⟩ := bind_eq_ok phrased
    obtain ⟨hform, rfl⟩ := liftM_eq_ok read
    split at rest
    · cases initialValue_descends _ _ rest
    · exact .typeName hform
    · cases identifier_descends _ _ rest
    · cases operands_descends _ _ _ _ rest
    · exact closes_of_assignment (p := { p with validated := id :: p.validated }) hform rest
    · exact absurd hform (other _ _)
    · cases rest

/-! ## Walks -/

/-- A visit that also notes the node and the session that it begins in. -/
def noting (visit : NodeId → Check Step) (id : NodeId) :
    StateT (Progress × List (NodeId × Session)) Outcome Step := fun r => do
  let (step, q) ← visit id r.1
  return (step, (q, r.2 ++ [(id, r.1.session)]))

/-- The nodes that the validation of everything at and below a node comes to one after the other,
each with the session at that time, and what the validation comes to. -/
def visits (c : Codebase) (root : NodeId) (p : Progress) :
    Outcome (List (NodeId × Session) × Progress) := do
  let (_, q, log) ← c.tree.walk root (noting (Check.node c (within c c.tree.size))) (p, [])
  return (log, q)

/-- Some nodes were validated in walks from some roots: none twice, none outside, and all that do
not lie below a node that closes. -/
structure Covers (c : Codebase) (roots : List NodeId) (validated : List NodeId)
    (log : List (NodeId × Session)) : Prop where
  once : validated.Nodup
  inside : ∀ x ∈ validated, ∃ root ∈ roots, c.tree.Within x root
  noted : ∀ visit ∈ log, visit.1 ∈ validated
  complete : ∀ root ∈ roots, ∀ x, c.tree.Within x root →
    (∀ visit ∈ log, visit.1 ≠ x → c.tree.Within x visit.1 → ¬ Closes c visit.2 visit.1) →
    x ∈ validated

namespace Covers

variable {validated more : List NodeId} {log others : List (NodeId × Session)} {s : Session}

/-- A walk from one root followed by walks from others that have no node in common with it. -/
theorem cons {root : NodeId} {roots : List NodeId} (h : Covers c [root] validated log)
    (rest : Covers c roots more others)
    (apart : ∀ x, c.tree.Within x root → ∀ other ∈ roots, ¬ c.tree.Within x other) :
    Covers c (root :: roots) (more ++ validated) (log ++ others) where
  once := by
    refine List.nodup_append.2 ⟨rest.once, h.once, ?_⟩
    rintro x hx _ hy rfl
    obtain ⟨other, ho, within⟩ := rest.inside x hx
    obtain ⟨r, hr, within'⟩ := h.inside x hy
    obtain rfl := List.mem_singleton.1 hr
    exact apart x within' other ho within
  inside x hx := by
    rcases List.mem_append.1 hx with hx | hx
    · obtain ⟨other, ho, within⟩ := rest.inside x hx
      exact ⟨other, by simp [ho], within⟩
    · obtain ⟨r, hr, within⟩ := h.inside x hx
      exact ⟨r, by simp [List.mem_singleton.1 hr], within⟩
  noted visit hv := by
    rcases List.mem_append.1 hv with hv | hv
    · exact List.mem_append_right _ (h.noted visit hv)
    · exact List.mem_append_left _ (rest.noted visit hv)
  complete r hr x within reached := by
    rcases List.mem_cons.1 hr with rfl | hr
    · exact List.mem_append_right _ (h.complete r (by simp) x within fun visit hv =>
        reached visit (List.mem_append_left _ hv))
    · exact List.mem_append_left _ (rest.complete r hr x within fun visit hv =>
        reached visit (List.mem_append_right _ hv))

/-- A node that closes, with what was validated on its own. -/
theorem skip {old : List NodeId} (h : Visited c id (Closes c s id) (id :: old) .skip q more)
    (has : c.tree.Has id) : Covers c [id] (more ++ [id]) [(id, s)] where
  once := by
    refine List.nodup_append.2 ⟨h.once, by simp, ?_⟩
    rintro x hx _ hy rfl
    exact (h.inside x hx).1 (List.mem_singleton.1 hy)
  inside x hx := by
    refine ⟨id, by simp, ?_⟩
    rcases List.mem_append.1 hx with hx | hx
    · exact (h.inside x hx).2
    · rw [List.mem_singleton.1 hx]
      exact .refl has
  noted visit hv := by simp [List.mem_singleton.1 hv]
  complete r hr x within reached := by
    obtain rfl := List.mem_singleton.1 hr
    by_cases same : x = r
    · simp [same]
    · exact absurd (h.skip rfl) (reached (r, s) (by simp) (Ne.symm same) within)

/-- A node and its parts. -/
theorem descend (wf : c.tree.WellFormed) (hn : c.tree.node? id = some node)
    (h : Covers c node.form.children validated log) :
    Covers c [id] (validated ++ [id]) ((id, s) :: log) where
  once := by
    refine List.nodup_append.2 ⟨h.once, by simp, ?_⟩
    rintro x hx _ hy rfl
    obtain rfl := List.mem_singleton.1 hy
    obtain ⟨child, hc, within⟩ := h.inside x hx
    exact wf.not_within_part hn hc within
  inside x hx := by
    refine ⟨id, by simp, ?_⟩
    rcases List.mem_append.1 hx with hx | hx
    · obtain ⟨child, hc, within⟩ := h.inside x hx
      exact wf.within_of_part hn hc within
    · rw [List.mem_singleton.1 hx]
      exact .refl (Tree.has_of_node? hn)
  noted visit hv := by
    rcases List.mem_cons.1 hv with rfl | hv
    · simp
    · exact List.mem_append_left _ (h.noted visit hv)
  complete r hr x within reached := by
    obtain rfl := List.mem_singleton.1 hr
    by_cases same : x = r
    · simp [same]
    · obtain ⟨child, hc, below⟩ := wf.exists_part hn within same
      exact List.mem_append_left _ (h.complete child hc x below fun visit hv =>
        reached visit (List.mem_cons_of_mem _ hv))

end Covers

theorem noting_eq_ok {visit : NodeId → Check Step} (h : visit id p = .ok (step, q))
    (log : List (NodeId × Session)) :
    noting visit id (p, log) = .ok (step, (q, log ++ [(id, p.session)])) := by
  unfold noting
  rw [h]
  rfl

/-- Walks that can also be carried out with a log, and that cover their roots. -/
def Walks (c : Codebase) (walk : Check Unit)
    (logged : StateT (Progress × List (NodeId × Session)) Outcome Unit)
    (roots : List NodeId) : Prop :=
  ∀ ⦃p q⦄ log, walk p = .ok ((), q) → ∃ validated new,
    logged (p, log) = .ok ((), (q, log ++ new)) ∧ q.validated = validated ++ p.validated ∧
      Covers c roots validated new

/-- Walks from one part of a node after the other. -/
theorem walks_forM {walk : NodeId → Check Unit}
    {logged : NodeId → StateT (Progress × List (NodeId × Session)) Outcome Unit}
    {roots : List NodeId}
    (each : ∀ root ∈ roots, Walks c (walk root) (logged root) [root])
    (apart : roots.Pairwise fun a b => ∀ x, c.tree.Within x a → ¬ c.tree.Within x b) :
    Walks c (roots.forM walk) (roots.forM logged) roots := by
  induction roots with
  | nil =>
    rintro p _ log ⟨⟩
    exact ⟨[], [], by rw [List.append_nil]; rfl, rfl, .nil, by simp, by simp, by simp⟩
  | cons root roots ih =>
    intro p q log run
    obtain ⟨_, t, first, rest⟩ := bind_eq_ok run
    obtain ⟨validated, new, ran, added, covers⟩ := each root (by simp) log first
    rw [List.pairwise_cons] at apart
    obtain ⟨more, others, ran', added', covers'⟩ :=
      ih (fun r hr => each r (by simp [hr])) apart.2 (log ++ new) rest
    refine ⟨more ++ validated, new ++ others, ?_, ?_, ?_⟩
    · rw [← List.append_assoc]
      exact (bind_ok ran).trans ran'
    · rw [added', added, List.append_assoc]
    · exact covers.cons covers' fun x hx other ho => apart.1 other ho x hx

theorem walks_walkWithin (wf : c.tree.WellFormed) (tidy : Tidy c below) (depth : Nat)
    (has : c.tree.Has id) : Walks c (c.tree.walkWithin (Check.node c below) depth id)
      (c.tree.walkWithin (noting (Check.node c below)) depth id) [id] := by
  induction depth generalizing id with
  | zero => rintro p q log ⟨⟩
  | succ depth ih =>
    intro p q log run
    obtain ⟨node, hn⟩ := has.node?
    obtain ⟨step, t, visited, rest⟩ := bind_eq_ok run
    obtain ⟨new, visit⟩ := node_visited wf tidy hn visited
    have logged := noting_eq_ok visited log
    cases step with
    | skip =>
      cases rest
      refine ⟨new ++ [id], [(id, p.session)], bind_ok logged, ?_, .skip visit has⟩
      rw [visit.validated, List.append_assoc]
      rfl
    | descend =>
      obtain ⟨form, u, read, walked⟩ := bind_eq_ok rest
      obtain ⟨hform, rfl⟩ := liftM_eq_ok read
      cases (Tree.form_eq_ok hn).symm.trans hform
      have parts : Walks c (node.form.children.forM (c.tree.walkWithin (Check.node c below) depth))
          (node.form.children.forM (c.tree.walkWithin (noting (Check.node c below)) depth))
          node.form.children := by
        refine walks_forM (fun child hc => ih (wf.descending.has hn hc)) ?_
        refine (wf.once.nodup hn).imp_of_mem ?_
        intro a b ha hb ne x wa wb
        exact ne (wf.parts_disjoint hn ha hb wa wb)
      obtain ⟨validated, others, ran, added, covers⟩ := parts (log ++ [(id, p.session)]) walked
      refine ⟨validated ++ [id], (id, p.session) :: others, ?_, ?_, covers.descend wf hn⟩
      · refine (bind_ok logged).trans ?_
        refine (bind_ok (liftM_ok (Tree.form_eq_ok hn) _)).trans ?_
        rw [ran, List.append_assoc]
        rfl
      · rw [added, visit.validated, visit.descend rfl, List.append_assoc]
        rfl

theorem tidy_within (wf : c.tree.WellFormed) (depth : Nat) : Tidy c (within c depth) := by
  induction depth with
  | zero => rintro id p q _ ⟨⟩
  | succ depth ih =>
    intro id p q has run
    rw [within, Tree.walk_eq wf.descending has] at run
    obtain ⟨validated, _, _, added, covers⟩ := walks_walkWithin wf ih _ has [] run
    refine ⟨validated, added, covers.once, fun x hx => ?_⟩
    obtain ⟨root, hr, within⟩ := covers.inside x hx
    exact List.mem_singleton.1 hr ▸ within

/-- A validation that ends well starts at a node of the tree. -/
theorem has_of_tree {root : NodeId} (run : tree c root p = .ok ((), q)) : c.tree.Has root := by
  have walked : c.tree.walkStack (Check.node c (within c c.tree.size)) c.tree.visitLimit [root] p =
      .ok ((), q) := run
  cases hfuel : c.tree.visitLimit with
  | zero => rw [hfuel] at walked; cases walked
  | succ fuel =>
    rw [hfuel] at walked
    obtain ⟨step, t, visited, -⟩ := bind_eq_ok walked
    obtain ⟨_, u, -, phrased⟩ := bind_eq_ok visited
    obtain ⟨form, _, read, -⟩ := bind_eq_ok phrased
    obtain ⟨node, hn, -⟩ := Tree.exists_node_of_form (liftM_eq_ok read).1
    exact Tree.has_of_node? hn

/-- Validating everything at and below a node comes to no node twice, and to no other nodes. It
comes to every node that does not lie below one that closes. A node that cannot be validated closes
nothing. -/
theorem tree_validates_once (wf : c.tree.WellFormed) {root : NodeId}
    (run : tree c root p = .ok ((), q)) :
    ∃ validated log, q.validated = validated ++ p.validated ∧ visits c root p = .ok (log, q) ∧
      validated.Nodup ∧ (∀ id ∈ validated, c.tree.Within id root) ∧
      (∀ visit ∈ log, visit.1 ∈ validated) ∧
      ∀ id, c.tree.Within id root →
        (∀ visit ∈ log, visit.1 ≠ id → c.tree.Within id visit.1 → ¬ Closes c visit.2 visit.1) →
        id ∈ validated := by
  have has := has_of_tree run
  rw [tree, within, Tree.walk_eq wf.descending has] at run
  obtain ⟨validated, log, logged, added, covers⟩ :=
    walks_walkWithin wf (tidy_within wf _) _ has [] run
  refine ⟨validated, log, added, ?_, covers.once, ?_, covers.noted, ?_⟩
  · rw [visits, Tree.walk_eq wf.descending has, logged]
    rfl
  · intro id hid
    obtain ⟨_, hr, within⟩ := covers.inside id hid
    exact List.mem_singleton.1 hr ▸ within
  · exact covers.complete root (by simp)

/-- A call inside the argument of another one, next to an assignment that has no sides. -/
def nestedForms : List Form :=
  [.identifier "A", .scriptHeader ⟨0⟩ none ∅, .identifier "F", .identifier "int",
    .typeName ⟨3⟩ false, .identifier "x", .parameter ⟨4⟩ ⟨5⟩ none false, .parameterList [⟨6⟩],
    .functionHeader none ⟨2⟩ ⟨7⟩ ∅, .identifier "F", .identifier "F", .literal .none,
    .literalExpression ⟨11⟩, .argument none ⟨12⟩, .call ⟨10⟩ [⟨13⟩], .argument none ⟨14⟩,
    .call ⟨9⟩ [⟨15⟩], .assignment none .assign none, .function ⟨8⟩ [⟨16⟩, ⟨17⟩],
    .script ⟨1⟩ [] [⟨18⟩]]

theorem nested_call_validates_once : ∃ (c : Codebase) (p q : Progress),
    c.tree = .ofForms nestedForms ∧ c.tree.WellFormed ∧ tree c ⟨19⟩ p = .ok ((), q) ∧
    ∃ validated log, q.validated = validated ++ p.validated ∧ visits c ⟨19⟩ p = .ok (log, q) ∧
      validated.Nodup ∧ (∀ id ∈ validated, c.tree.Within id ⟨19⟩) ∧
      (∀ visit ∈ log, visit.1 ∈ validated) ∧
      ∀ id, c.tree.Within id ⟨19⟩ →
        (∀ visit ∈ log, visit.1 ≠ id → c.tree.Within id visit.1 → ¬ Closes c visit.2 visit.1) →
        id ∈ validated := by
  have carried : (Program.ofTree (.ofForms nestedForms) >>= fun p =>
      Session.start p.codebase >>= fun s => tree p.codebase ⟨19⟩ { session := s } >>= fun _ =>
        .ok (p.tree = .ofForms nestedForms : Bool)).toOption.any id := by
    decide +kernel
  obtain ⟨holds, run, true'⟩ := exists_ok_of_any carried
  obtain ⟨p, -, run⟩ := exists_of_bind_eq_ok run
  obtain ⟨s, -, run⟩ := exists_of_bind_eq_ok run
  obtain ⟨⟨_, q⟩, checked, run⟩ := exists_of_bind_eq_ok run
  cases run
  have same : p.codebase.tree = .ofForms nestedForms := of_decide_eq_true true'
  have wf : p.codebase.tree.WellFormed :=
    same ▸ ⟨Tree.grown_ofForms (by decide), by decide +kernel, by decide +kernel⟩
  exact ⟨p.codebase, _, q, same, wf, checked, tree_validates_once wf checked⟩

end Check

end PapyrusAnalysis
