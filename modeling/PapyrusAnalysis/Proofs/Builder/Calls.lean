import Mathlib.Logic.Relation
import PapyrusAnalysis.Proofs.Tree.Parents
import PapyrusAnalysis.Tree.Builder

/-!
# What a builder does

A builder has many calls, but all it ever does to its tree is one of three things: it puts a leaf at
the cursor, puts a node around nodes that are there, or limits the names at a node. A call that is
given nodes of the tree takes such strides and returns a node of the tree, unless the offsets run
out.

## Main definitions

* `Tree.Hull`: the smallest range around some nodes.
* `Builder.Stride`: one step of building.
* `Builder.Makes`: a part of building that returns a node of the tree.
* `Builder.Call`: the calls of a builder.

## Main statements

* `Builder.Call.makes`: what a call does.
-/

namespace PapyrusAnalysis

theorem Range.containsRange_iff {outer inner : Range} :
    outer.containsRange inner ↔ outer.start ≤ inner.start ∧ inner.stop ≤ outer.stop := by
  simp [Range.containsRange]

namespace Tree

variable {t u : Tree} {id : NodeId} {ids : List NodeId} {range outer : Range}

/-- The range at a node. -/
def rangeAt (t : Tree) (id : NodeId) : Option Range := (t.node? id).map Node.range

theorem rangeAt_add (t : Tree) (form : Form) (range : Range) (id : NodeId) :
    (t.add form range).rangeAt id = if id.index = t.size then some range else t.rangeAt id :=
  map_node?_add (fun _ _ => rfl) t form range id

theorem rangeAt_restrict (t : Tree) (other : NodeId) (scope : FlagSet MemberKind) (id : NodeId) :
    (t.restrict other scope).rangeAt id = t.rangeAt id :=
  map_node?_restrict (fun _ _ => rfl) t other scope id

theorem Has.rangeAt (h : t.Has id) : ∃ range, t.rangeAt id = some range := by
  obtain ⟨node, hn⟩ := h.node?
  exact ⟨node.range, by simp [Tree.rangeAt, hn]⟩

theorem Has.formAt (h : t.Has id) : ∃ form, t.formAt id = some form := by
  obtain ⟨node, hn⟩ := h.node?
  exact ⟨node.form, formAt_eq hn⟩

theorem has_of_rangeAt (h : t.rangeAt id = some range) : t.Has id := by
  obtain ⟨node, hn, -⟩ := Option.map_eq_some_iff.1 h
  exact has_of_node? hn

theorem range_eq (h : t.rangeAt id = some range) : t.range id = .ok range := by
  obtain ⟨node, hn, rfl⟩ := Option.map_eq_some_iff.1 h
  exact range_eq_ok hn

/-! ## Ranges around nodes -/

/-- A range around some nodes. -/
def Encloses (t : Tree) (ids : List NodeId) (outer : Range) : Prop :=
  ∀ id ∈ ids, ∃ range, t.rangeAt id = some range ∧ outer.containsRange range

/-- The range around some nodes that starts with the first of them and stops with the last. -/
structure Hull (t : Tree) (ids : List NodeId) (range : Range) : Prop where
  encloses : t.Encloses ids range
  starts : ∃ id ∈ ids, ∃ inner, t.rangeAt id = some inner ∧ inner.start = range.start
  stops : ∃ id ∈ ids, ∃ inner, t.rangeAt id = some inner ∧ inner.stop = range.stop

theorem Hull.single (h : t.rangeAt id = some range) : t.Hull [id] range where
  encloses := by simp [Encloses, h, Range.containsRange]
  starts := ⟨id, by simp, range, h, rfl⟩
  stops := ⟨id, by simp, range, h, rfl⟩

theorem Hull.cons (h : t.rangeAt id = some range) (rest : t.Hull ids outer) :
    t.Hull (id :: ids) (range.cover outer) := by
  obtain ⟨encloses, ⟨a, ha, ra, hra, starts⟩, b, hb, rb, hrb, stops⟩ := rest
  refine ⟨?_, ?_, ?_⟩
  · intro other ho
    rcases List.mem_cons.1 ho with rfl | ho
    · exact ⟨range, h, Range.containsRange_cover_left _ _⟩
    · obtain ⟨inner, hinner, inside⟩ := encloses other ho
      refine ⟨inner, hinner, ?_⟩
      rw [Range.containsRange_iff] at inside ⊢
      exact ⟨Nat.le_trans (Nat.min_le_right ..) inside.1,
        Nat.le_trans inside.2 (Nat.le_max_right ..)⟩
  · rcases Nat.le_total range.start outer.start with le | le
    · exact ⟨id, by simp, range, h, by simp [Range.cover, le]⟩
    · exact ⟨a, by simp [ha], ra, hra, by simp [Range.cover, starts, le]⟩
  · rcases Nat.le_total outer.stop range.stop with le | le
    · exact ⟨id, by simp, range, h, by simp [Range.cover, le]⟩
    · exact ⟨b, by simp [hb], rb, hrb, by simp [Range.cover, stops, le]⟩

/-- No smaller range is around the nodes. -/
theorem Hull.least (h : t.Hull ids range) (encloses : t.Encloses ids outer) :
    outer.containsRange range := by
  obtain ⟨-, ⟨a, ha, ra, hra, starts⟩, b, hb, rb, hrb, stops⟩ := h
  obtain ⟨ra', hra', insideA⟩ := encloses a ha
  obtain ⟨rb', hrb', insideB⟩ := encloses b hb
  cases hra.symm.trans hra'
  cases hrb.symm.trans hrb'
  rw [Range.containsRange_iff] at *
  omega

theorem Hull.mono (kept : ∀ id range, t.rangeAt id = some range → u.rangeAt id = some range)
    (h : t.Hull ids range) : u.Hull ids range := by
  obtain ⟨encloses, ⟨a, ha, ra, hra, starts⟩, b, hb, rb, hrb, stops⟩ := h
  refine ⟨fun id hid => ?_, ⟨a, ha, ra, kept a ra hra, starts⟩, b, hb, rb, kept b rb hrb, stops⟩
  obtain ⟨inner, hinner, inside⟩ := encloses id hid
  exact ⟨inner, kept id inner hinner, inside⟩

end Tree

namespace Builder

/-! ## Steps of building -/

variable {b b' : Builder} {form : Form} {id : NodeId}

/-- One step of building. -/
inductive Stride (b : Builder) : Builder → Prop where
  /-- A leaf at the cursor, which then stands one behind its end. -/
  | leaf {form : Form} {width : Nat} (bare : form.children = []) (wide : 0 < width)
      (fits : b.cursor + width + 1 < offsetLimit) :
      Stride b ⟨b.tree.add form ⟨b.cursor, b.cursor + width⟩, b.cursor + width + 1⟩
  /-- A node around nodes that are there. -/
  | around {form : Form} {range : Range} (hull : b.tree.Hull form.children range) :
      Stride b ⟨b.tree.add form range, b.cursor⟩
  /-- A limit on the names at a node. -/
  | restrict (id : NodeId) (scope : FlagSet MemberKind) :
      Stride b ⟨b.tree.restrict id scope, b.cursor⟩

theorem Stride.size_le (h : Stride b b') : b.tree.size ≤ b'.tree.size := by
  cases h <;> simp

/-- A builder takes strides, and only the numbers for offsets can run out. -/
def building : Conduct Builder where
  keeps _ := True
  grows := Relation.ReflTransGen Stride
  refl _ := .refl
  trans := .trans
  tolerates e := e = .offsetOverflow

theorem size_le_of_grows (h : building.grows b b') : b.tree.size ≤ b'.tree.size := by
  induction h with
  | refl => exact Nat.le_refl _
  | tail _ last ih => exact Nat.le_trans ih last.size_le

/-- Whether the builder has some nodes. -/
def Holds (b : Builder) (nodes : List NodeId) : Prop := ∀ id ∈ nodes, b.tree.Has id

theorem holds_nil : b.Holds [] := by simp [Holds]

theorem Holds.sub {nodes others : List NodeId} (h : b.Holds nodes)
    (sub : ∀ id ∈ others, id ∈ nodes) : b.Holds others :=
  fun id hid => h id (sub id hid)

theorem Holds.grows {nodes : List NodeId} (h : b.Holds nodes) (grows : building.grows b b') :
    b'.Holds nodes := by
  intro id hid
  exact Nat.lt_of_lt_of_le (h id hid) (size_le_of_grows grows)

variable {α β : Type} {view : α → List NodeId} {last : β → List NodeId} {x : Build α}

/-- A part of building that answers with nodes of the tree. -/
def Yields (view : α → List NodeId) (b : Builder) (x : Build α) : Prop :=
  Runs building b x fun a b' => b'.Holds (view a)

theorem Yields.andThen {f : α → Build β} {known : List NodeId} (h : Yields view b x)
    (given : b.Holds known) (next : ∀ a b', b'.Holds (view a ++ known) → Yields last b' (f a)) :
    Yields last b (x >>= f) := by
  refine Runs.bind h fun a b' grows _ holds => next a b' fun id hid => ?_
  rcases List.mem_append.1 hid with hid | hid
  · exact holds id hid
  · exact given.grows grows id hid

theorem Yields.pure {a : α} (given : b.Holds (view a)) : Yields view b (Pure.pure a) :=
  Runs.pure trivial given

/-- A part of building that answers with a node of the tree. -/
abbrev Makes (b : Builder) (x : Build NodeId) : Prop := Yields (fun id => [id]) b x

theorem makes_leaf (bare : form.children = []) (width : Nat) : Makes b (leaf form width) := by
  refine Runs.get ?_
  by_cases inside : b.cursor + max width 1 < offsetLimit
  · refine .lift (if_pos inside) ?_
    by_cases fits : b.cursor + max width 1 + 1 < offsetLimit
    · refine .lift (if_pos fits) (.done rfl (.single (.leaf bare (by omega) fits)) trivial ?_)
      simpa [Holds] using Tree.has_nextId_add ..
    · exact .fault (bind_error (liftM_error (if_neg fits) _)) rfl
  · exact .fault (bind_error (liftM_error (if_neg inside) _)) rfl

/-- Nodes of the tree have a smallest range around them, unless there are none. -/
theorem around_eq {t : Tree} {ids : List NodeId} (has : ∀ id ∈ ids, t.Has id) :
    (ids = [] ∧ around t ids = .ok none) ∨
      ∃ range, around t ids = .ok (some range) ∧ t.Hull ids range := by
  induction ids with
  | nil => exact .inl ⟨rfl, rfl⟩
  | cons id ids ih =>
    obtain ⟨range, hr⟩ := (has id (by simp)).rangeAt
    have read := Tree.range_eq hr
    rcases ih fun other ho => has other (by simp [ho]) with ⟨rfl, none⟩ | ⟨rest, some, hull⟩
    · refine .inr ⟨range, ?_, .single hr⟩
      simp [around, read, bind, Except.bind, pure, Except.pure]
    · refine .inr ⟨range.cover rest, ?_, .cons hr hull⟩
      simp [around, read, some, bind, Except.bind, pure, Except.pure]

theorem makes_composite (given : b.Holds form.children) : Makes b (composite form) := by
  refine Runs.get ?_
  rcases around_eq given with ⟨bare, none⟩ | ⟨range, some, hull⟩
  · exact .lift none (makes_leaf bare 1)
  · refine .lift some (.done rfl (.single (.around hull)) trivial ?_)
    simpa [Holds] using Tree.has_nextId_add ..

theorem yields_restrict (id : NodeId) (scope : FlagSet MemberKind) :
    Yields (fun _ => []) b (restrict id scope) :=
  .done rfl (.single (.restrict id scope)) trivial (by simp [Holds])

/-- A node around one that has just been made, and others. -/
theorem Yields.composite {f : α → Form} {known : List NodeId} (h : Yields view b x)
    (given : b.Holds known) (parts : ∀ a, ∀ id ∈ (f a).children, id ∈ view a ++ known) :
    Makes b (x >>= fun a => composite (f a)) :=
  h.andThen given fun a _ holds => makes_composite (holds.sub (parts a))

theorem makes_identifier (name : String) : Makes b (identifier name) := makes_leaf rfl _

theorem makes_identifierFor (name : String) (scope : FlagSet MemberKind) :
    Makes b (identifierFor name scope) := by
  refine (makes_identifier name).andThen holds_nil fun id _ given => ?_
  exact (yields_restrict id scope).andThen given fun _ _ given => .pure (by simpa using given)

theorem makes_typeName (name : String) : Makes b (typeName name) := by
  refine (makes_identifier _).andThen holds_nil fun identifier _ given => ?_
  refine (makes_composite (by simpa [Form.children] using given)).andThen holds_nil
    fun id _ given => ?_
  exact (yields_restrict id _).andThen given fun _ _ given => .pure (by simpa using given)

theorem makes_literal (value : Literal) : Makes b (literal value) := makes_leaf rfl _

theorem makes_asArgument (given : b.Holds [id]) : Makes b (asArgument id) := by
  obtain ⟨node, hn⟩ := (given id (by simp)).node?
  refine Runs.get (.lift (Tree.form_eq_ok hn) ?_)
  split
  · exact Yields.pure given
  · exact makes_composite (by simpa [Form.children] using given)

theorem yields_mapM (view : α → List NodeId) {xs : List α} {f : α → Build NodeId}
    (given : b.Holds (xs.flatMap view)) (each : ∀ a b, b.Holds (view a) → Makes b (f a)) :
    Yields (fun ids => ids) b (xs.mapM f) := by
  induction xs generalizing b with
  | nil => exact .pure holds_nil
  | cons a xs ih =>
    rw [List.mapM_cons]
    have head : b.Holds (view a) := given.sub (by simp +contextual)
    have tail : b.Holds (xs.flatMap view) := given.sub (by simp +contextual)
    refine (each a b head).andThen tail fun id b' holds => ?_
    refine (ih (holds.sub (by simp +contextual))).andThen holds fun ids b'' holds => ?_
    exact .pure (holds.sub (by grind))

theorem yields_mapM_option {f : String → Build NodeId} (each : ∀ text b, Makes b (f text))
    (text : Option String) : Yields Option.toList b (text.mapM f) := by
  cases text with
  | none => exact .pure holds_nil
  | some text =>
    exact (each text b).andThen holds_nil fun id _ given => .pure (by simpa using given)

/-! ## Calls -/

/-- A call of the builder. -/
inductive Call where
  | identifier (name : String)
  | typeName (name : String)
  | literal (value : Literal)
  | literalExpression (value : Literal)
  | reference (name : String)
  | memberAccess (base access : NodeId)
  | argument (value : NodeId)
  | namedArgument (name : String) (value : NodeId)
  | call (name : String) (arguments : List NodeId)
  | binary (left : NodeId) (operator : BinaryOperator) (right : NodeId)
  | unary (operator : UnaryOperator) (inner : NodeId)
  | cast (inner : NodeId) (type : String)
  | typeTest (inner : NodeId) (type : String)
  | index (base position : NodeId)
  | newStruct (type : String)
  | newArray (element : String) (length : NodeId)
  | declaration (type name : String) (initial : Option NodeId)
  | assignment (left : Option NodeId) (operator : AssignmentOperator) (right : Option NodeId)
  | expressionStatement (expression : NodeId)
  | returnStatement (value : Option NodeId)
  | ifChain (branches : List (Option NodeId × List NodeId))
  | whileLoop (condition : NodeId) (statements : List NodeId)
  | variableDefinition (type name : String) (modifiers : FlagSet Modifier) (initial : Option NodeId)
  | property (type name : String) (modifiers : FlagSet Modifier) (functions : List NodeId)
  | parameter (type name : String)
  | optionalParameter (type name : String) (default : Literal)
  | function (returnType : Option String) (name : String) (parameters : List NodeId)
      (modifiers : FlagSet Modifier) (statements : List NodeId)
  | event (name : String) (parameters statements : List NodeId)
  | customEvent (name : String)
  | struct (name : String) (members : List NodeId)
  | state (name : String) (isAuto : Bool) (definitions : List NodeId)
  | group (name : String) (modifiers : FlagSet Modifier) (properties : List NodeId)
  | importLine (name : String)
  | script (name : String) (extended : Option String) (modifiers : FlagSet Modifier)
      (imports definitions : List NodeId)

namespace Call

/-- Carries out a call. -/
def run : Call → Build NodeId
  | identifier name => Builder.identifier name
  | typeName name => Builder.typeName name
  | literal value => Builder.literal value
  | literalExpression value => Builder.literalExpression value
  | reference name => Builder.reference name
  | memberAccess base access => Builder.memberAccess base access
  | argument value => Builder.argument value
  | namedArgument name value => Builder.namedArgument name value
  | call name arguments => Builder.call name arguments
  | binary left operator right => Builder.binary left operator right
  | unary operator inner => Builder.unary operator inner
  | cast inner type => Builder.cast inner type
  | typeTest inner type => Builder.typeTest inner type
  | index base position => Builder.index base position
  | newStruct type => Builder.newStruct type
  | newArray element length => Builder.newArray element length
  | declaration type name initial => Builder.declaration type name initial
  | assignment left operator right => Builder.assignment left operator right
  | expressionStatement expression => Builder.expressionStatement expression
  | returnStatement value => Builder.returnStatement value
  | ifChain branches => Builder.ifChain branches
  | whileLoop condition statements => Builder.whileLoop condition statements
  | variableDefinition type name modifiers initial =>
    Builder.variableDefinition type name modifiers initial
  | property type name modifiers functions => Builder.property type name modifiers functions
  | parameter type name => Builder.parameter type name
  | optionalParameter type name default => Builder.optionalParameter type name default
  | function returnType name parameters modifiers statements =>
    Builder.function returnType name parameters modifiers statements
  | event name parameters statements => Builder.event name parameters statements
  | customEvent name => Builder.customEvent name
  | struct name members => Builder.struct name members
  | state name isAuto definitions => Builder.state name isAuto definitions
  | group name modifiers properties => Builder.group name modifiers properties
  | importLine name => Builder.importLine name
  | script name extended modifiers imports definitions =>
    Builder.script name extended modifiers imports definitions

/-- The nodes that a call is given. -/
@[simp] def nodes : Call → List NodeId
  | memberAccess base access => [base, access]
  | argument value => [value]
  | namedArgument _ value => [value]
  | call _ arguments => arguments
  | binary left _ right => [left, right]
  | unary _ inner => [inner]
  | cast inner _ => [inner]
  | typeTest inner _ => [inner]
  | index base position => [base, position]
  | newArray _ length => [length]
  | declaration _ _ initial => initial.toList
  | assignment left _ right => left.toList ++ right.toList
  | expressionStatement expression => [expression]
  | returnStatement value => value.toList
  | ifChain branches => branches.flatMap fun branch => branch.1.toList ++ branch.2
  | whileLoop condition statements => condition :: statements
  | variableDefinition _ _ _ initial => initial.toList
  | property _ _ _ functions => functions
  | function _ _ parameters _ statements => parameters ++ statements
  | event _ parameters statements => parameters ++ statements
  | struct _ members => members
  | state _ _ definitions => definitions
  | group _ _ properties => properties
  | script _ _ _ imports definitions => imports ++ definitions
  | identifier _ | typeName _ | literal _ | literalExpression _ | reference _ | newStruct _
  | parameter .. | optionalParameter .. | customEvent _ | importLine _ => []

end Call

/-- A node around the name of a type and an identifier, and others. -/
theorem makes_typed {f : NodeId → NodeId → Form} {known : List NodeId} {type name : String}
    (given : b.Holds known)
    (parts : ∀ type name, ∀ id ∈ (f type name).children, id ∈ name :: type :: known) :
    Makes b (do let type ← typeName type; composite (f type (← identifier name))) :=
  (makes_typeName type).andThen given fun type _ given =>
    (makes_identifier name).composite given (parts type)

theorem makes_call (name : String) {arguments : List NodeId} (given : b.Holds arguments) :
    Makes b (call name arguments) := by
  refine (makes_identifierFor name _).andThen given fun identifier b given => ?_
  have wrapped : Yields (fun ids => ids) b (arguments.mapM asArgument) :=
    yields_mapM (fun id => [id]) (given.sub (by simp +contextual)) fun id b => makes_asArgument
  exact wrapped.composite given (by simp +contextual [Form.children])

theorem makes_assignment {left right : Option NodeId} (operator : AssignmentOperator)
    (given : b.Holds (left.toList ++ right.toList)) : Makes b (assignment left operator right) := by
  cases left with
  | none => exact makes_composite given
  | some left =>
    exact (yields_restrict left _).composite given (by simp +contextual [Form.children])

theorem makes_ifChain {branches : List (Option NodeId × List NodeId)}
    (given : b.Holds (branches.flatMap fun branch => branch.1.toList ++ branch.2)) :
    Makes b (ifChain branches) := by
  refine (yields_mapM _ given ?_).composite holds_nil (by simp [Form.children])
  intro branch b given
  change b.Holds (Form.ifBranch branch.1 branch.2).children at given
  exact makes_composite given

theorem makes_property (type name : String) (modifiers : FlagSet Modifier) {functions : List NodeId}
    (given : b.Holds functions) : Makes b (property type name modifiers functions) :=
  (makes_typeName type).andThen given fun _ _ given =>
    (makes_identifierFor name _).composite given (by simp +contextual [Form.children])

theorem makes_optionalParameter (type name : String) (default : Literal) :
    Makes b (optionalParameter type name default) :=
  (makes_typeName type).andThen holds_nil fun _ _ given =>
    (makes_identifier name).andThen given fun _ _ given =>
      (makes_literal default).composite given (by simp +contextual [Form.children])

theorem makes_function (returnType : Option String) (name : String) {parameters : List NodeId}
    (modifiers : FlagSet Modifier) {statements : List NodeId}
    (given : b.Holds (parameters ++ statements)) :
    Makes b (function returnType name parameters modifiers statements) := by
  refine (yields_mapM_option (fun _ _ => makes_typeName _) returnType).andThen given
    fun returnType b given => ?_
  refine (makes_identifierFor name _).andThen given fun identifier b given => ?_
  refine (makes_composite (given.sub (by simp +contextual [Form.children]))).andThen given
    fun parameters b given => ?_
  refine (makes_composite (given.sub ?_)).composite given ?_
  · grind [Form.children]
  · grind [Form.children]

theorem makes_event (name : String) {parameters statements : List NodeId}
    (given : b.Holds (parameters ++ statements)) : Makes b (event name parameters statements) := by
  refine (makes_identifier name).andThen given fun identifier b given => ?_
  refine (makes_composite (given.sub (by simp +contextual [Form.children]))).andThen given
    fun parameters b given => ?_
  refine (makes_composite (given.sub ?_)).composite given ?_
  · grind [Form.children]
  · grind [Form.children]

theorem makes_script (name : String) (extended : Option String) (modifiers : FlagSet Modifier)
    {imports definitions : List NodeId} (given : b.Holds (imports ++ definitions)) :
    Makes b (script name extended modifiers imports definitions) := by
  refine (makes_identifier name).andThen given fun identifier b given => ?_
  refine (yields_mapM_option (fun _ _ => makes_identifier _) extended).andThen given
    fun extended b given => ?_
  refine (makes_composite (given.sub ?_)).composite given ?_
  · grind [Form.children]
  · grind [Form.children]

/-- A call that is given nodes of the tree makes another one. -/
theorem Call.makes (c : Call) (given : b.Holds c.nodes) : Makes b c.run := by
  cases c with
  | identifier name => exact makes_identifier name
  | typeName name => exact makes_typeName name
  | literal value => exact makes_literal value
  | literalExpression value =>
    exact (makes_literal value).composite holds_nil (by simp [Form.children])
  | reference name =>
    exact (makes_identifierFor name _).composite holds_nil (by simp [Form.children])
  | memberAccess | argument | binary | unary | index | expressionStatement | returnStatement
  | whileLoop => exact makes_composite given
  | namedArgument | customEvent | struct | state | group | importLine =>
    exact (makes_identifier _).composite given (by simp +contextual [Form.children])
  | cast | typeTest | newStruct | newArray =>
    exact (makes_typeName _).composite given (by simp +contextual [Form.children])
  | declaration | variableDefinition | parameter =>
    exact makes_typed given (by simp +contextual [Form.children])
  | call name arguments => exact makes_call name given
  | assignment left operator right => exact makes_assignment operator given
  | ifChain branches => exact makes_ifChain given
  | property type name modifiers functions => exact makes_property type name modifiers given
  | optionalParameter type name default => exact makes_optionalParameter type name default
  | function returnType name parameters modifiers statements =>
    exact makes_function returnType name modifiers given
  | event name parameters statements => exact makes_event name given
  | script name extended modifiers imports definitions =>
    exact makes_script name extended modifiers given

end Builder

end PapyrusAnalysis
