import PapyrusAnalysis.Proofs.Builder.Placement
import PapyrusAnalysis.Proofs.Steady
import PapyrusAnalysis.Proofs.Tree.Descent

/-!
# The limits that a builder sets

A builder limits what names may refer to. The name of a function or property is limited to its own
kind, the name of a type to structs, and the names of other declarations are not limited. Else only
the left side of an assignment is. A limit is set when a name is made, so that it is known as soon
as the name is used.

## Main definitions

* `Form.nameLimit?`: the identifier of a declaration with its limit.
* `Tree.Limited`: what is true of the limits while a tree is built.

## Main statements

* `Builder.Built.limited`: the limits of what is built.
-/

namespace PapyrusAnalysis

namespace Form

/-- The identifier by which a phrase declares something, with the limit on its name. Groups and
states are left out, as their names stand for nothing. -/
def nameLimit? : Form → Option (NodeId × Option (FlagSet MemberKind))
  | scriptHeader title _ _ | customEvent title | eventHeader title _ | parameter _ title _ _
  | struct title _ | variableDefinition _ title _ _ | declaration _ title _ => some (title, none)
  | functionHeader _ title _ _ => some (title, some {.function})
  | property _ title _ _ _ => some (title, some {.property})
  | _ => none

/-- Whether a phrase declares nothing by a name, and does not hold the header of an event. -/
def isPlain : Form → Bool
  | event .. => false
  | form => form.nameLimit?.isNone

/-- Whether a phrase is a name, or that of a type. -/
def isName : Form → Bool
  | identifier _ | typeName .. => true
  | _ => false

end Form

namespace Tree

variable {t u : Tree} {id other : NodeId} {form : Form} {range : Range}
  {scope : FlagSet MemberKind}

/-- The limit on names at a node. -/
def scopeAt (t : Tree) (id : NodeId) : Option (FlagSet MemberKind) := (t.node? id).bind Node.scope

theorem scopeAt_add (t : Tree) (form : Form) (range : Range) (id : NodeId) :
    (t.add form range).scopeAt id = if id.index = t.size then none else t.scopeAt id := by
  rw [scopeAt, scopeAt, node?_add]
  split
  · rfl
  · cases t.node? id with
    | none => rfl
    | some node => by_cases part : id ∈ form.children <;> simp [part]

theorem scopeAt_restrict_ne (ne : other ≠ id) :
    (t.restrict other scope).scopeAt id = t.scopeAt id := by
  have apart : other.index ≠ id.index := fun same => ne (by cases other; cases id; simp_all)
  rw [scopeAt, scopeAt, node?_restrict]
  cases t.node? id <;> simp [apart]

theorem scopeAt_restrict_self (has : t.Has id) : (t.restrict id scope).scopeAt id = some scope := by
  obtain ⟨node, hn⟩ := has.node?
  rw [scopeAt, node?_restrict, hn]
  simp

/-- A node is the left side of an assignment. -/
def Assigned (t : Tree) (id : NodeId) : Prop :=
  ∃ a operator right, t.formAt a = some (.assignment (some id) operator right)

/-- What is true of the limits while a tree is built. -/
structure Limited (t : Tree) : Prop where
  names : ∀ {id form title limit}, t.formAt id = some form → form.nameLimit? = some (title, limit) →
    t.Has title ∧ (t.scopeAt title = limit ∨ t.Assigned title)
  others : ∀ {id form}, t.formAt id = some form → t.scopeAt id ≠ none →
    form.isName ∨ t.Assigned id
  /-- The statements of an event are made before its name. -/
  events : ∀ {id header statements}, t.formAt id = some (.event header statements) →
    ∃ title parameters, t.formAt header = some (.eventHeader title parameters) ∧
      ∀ s ∈ statements, s.index < title.index

/-- A tree keeps the nodes of another one with their limits. -/
structure Keeps (u t : Tree) : Prop where
  has : ∀ {id}, t.Has id → u.Has id
  formAt : ∀ {id}, t.Has id → u.formAt id = t.formAt id
  scopeAt : ∀ {id}, t.Has id → u.scopeAt id = t.scopeAt id

theorem Keeps.trans {v : Tree} (h : v.Keeps u) (h' : u.Keeps t) : v.Keeps t where
  has has := h.has (h'.has has)
  formAt has := (h.formAt (h'.has has)).trans (h'.formAt has)
  scopeAt has := (h.scopeAt (h'.has has)).trans (h'.scopeAt has)

theorem keeps_add (t : Tree) (form : Form) (range : Range) : (t.add form range).Keeps t where
  has {id} has := by
    rw [Has, size_add]
    exact Nat.lt_succ_of_lt has
  formAt has := by rw [formAt_add, if_neg (Nat.ne_of_lt has)]
  scopeAt has := by rw [scopeAt_add, if_neg (Nat.ne_of_lt has)]

theorem Keeps.assigned (h : u.Keeps t) (assigned : t.Assigned id) : u.Assigned id := by
  obtain ⟨a, operator, right, ha⟩ := assigned
  exact ⟨a, operator, right, (h.formAt (has_of_formAt ha)).trans ha⟩

theorem Limited.add (limited : t.Limited) (range : Range)
    (known : ∀ {title limit}, form.nameLimit? = some (title, limit) →
      t.Has title ∧ t.scopeAt title = limit)
    (event : ∀ {header statements}, form = .event header statements →
      ∃ title parameters, t.formAt header = some (.eventHeader title parameters) ∧
        ∀ s ∈ statements, s.index < title.index) : (t.add form range).Limited := by
  have keeps := keeps_add t form range
  refine ⟨?_, ?_, ?_⟩
  · intro id f title limit hf hl
    rcases add_cases (has_of_formAt hf) with ⟨-, same, -⟩ | ⟨-, same, -⟩
    · cases same.symm.trans hf
      obtain ⟨has, hs⟩ := known hl
      exact ⟨keeps.has has, .inl ((keeps.scopeAt has).trans hs)⟩
    · obtain ⟨has, hs⟩ := limited.names (same ▸ hf) hl
      rw [keeps.scopeAt has]
      exact ⟨keeps.has has, hs.imp_right keeps.assigned⟩
  · intro id f hf hs
    rcases add_cases (has_of_formAt hf) with ⟨last, -⟩ | ⟨old, same, -⟩
    · rw [scopeAt_add, if_pos last] at hs
      exact absurd rfl hs
    · rw [keeps.scopeAt old] at hs
      exact (limited.others (same ▸ hf) hs).imp_right keeps.assigned
  · intro id header statements hf
    have earlier : ∃ title parameters, t.formAt header = some (.eventHeader title parameters) ∧
        ∀ s ∈ statements, s.index < title.index := by
      rcases add_cases (has_of_formAt hf) with ⟨-, same, -⟩ | ⟨-, same, -⟩
      · exact event (Option.some.inj (same.symm.trans hf))
      · exact limited.events (same ▸ hf)
    obtain ⟨title, parameters, hh, before⟩ := earlier
    exact ⟨title, parameters, (keeps.formAt (has_of_formAt hh)).trans hh, before⟩

/-- A name that declares nothing yet can be limited, and so can the left side of an assignment. -/
theorem Limited.restrict (limited : t.Limited) (scope : FlagSet MemberKind)
    (free : t.Assigned id ∨ (∃ form, t.formAt id = some form ∧ form.isName) ∧
      ∀ {other form limit}, t.formAt other = some form → form.nameLimit? ≠ some (id, limit)) :
    (t.restrict id scope).Limited := by
  have forms := formAt_restrict t id scope
  have assigned {other : NodeId} (h : t.Assigned other) : (t.restrict id scope).Assigned other := by
    obtain ⟨a, operator, right, ha⟩ := h
    exact ⟨a, operator, right, (forms a).trans ha⟩
  refine ⟨?_, ?_, ?_⟩
  · intro other form title limit hf hl
    rw [forms] at hf
    obtain ⟨has, hs⟩ := limited.names hf hl
    refine ⟨by rwa [Has, size_restrict], ?_⟩
    by_cases same : id = title
    · subst same
      rcases free with isAssigned | ⟨-, unused⟩
      · exact .inr (assigned isAssigned)
      · exact absurd hl (unused hf)
    · rw [scopeAt_restrict_ne same]
      exact hs.imp_right assigned
  · intro other form hf hs
    rw [forms] at hf
    by_cases same : id = other
    · subst same
      rcases free with isAssigned | ⟨⟨form', hf', isName⟩, -⟩
      · exact .inr (assigned isAssigned)
      · cases hf.symm.trans hf'
        exact .inl isName
    · rw [scopeAt_restrict_ne same] at hs
      exact (limited.others hf hs).imp_right assigned
  · intro other header statements hf
    rw [forms] at hf ⊢
    exact limited.events hf

theorem Limited.congr (limited : t.Limited) (size : u.size = t.size)
    (forms : ∀ id, u.formAt id = t.formAt id) (scopes : ∀ id, u.scopeAt id = t.scopeAt id) :
    u.Limited := by
  have has {id : NodeId} : u.Has id ↔ t.Has id := by rw [Has, Has, size]
  have assigned {id : NodeId} : u.Assigned id ↔ t.Assigned id := by simp only [Assigned, forms]
  refine ⟨fun hf hl => ?_, fun hf hs => ?_, fun hf => ?_⟩
  · rw [has, scopes, assigned]
    exact limited.names (forms _ ▸ hf) hl
  · rw [assigned]
    exact limited.others (forms _ ▸ hf) (scopes _ ▸ hs)
  · rw [forms]
    exact limited.events (forms _ ▸ hf)

/-- What is assigned to can be limited before the assignment is made. -/
theorem Limited.assign (limited : t.Limited) (has : t.Has id) (scope : FlagSet MemberKind)
    {operator : AssignmentOperator} {right : Option NodeId} (range : Range) :
    ((t.restrict id scope).add (.assignment (some id) operator right) range).Limited := by
  have later :
      ((t.add (.assignment (some id) operator right) range).restrict id scope).Limited := by
    refine (limited.add range (by simp [Form.nameLimit?]) (by simp)).restrict scope (.inl ?_)
    exact ⟨⟨t.size⟩, operator, right, by rw [formAt_add, if_pos rfl]⟩
  refine later.congr (by simp) (fun other => ?_) fun other => ?_
  · rw [formAt_add, formAt_restrict, formAt_restrict, formAt_add, size_restrict]
  · rw [scopeAt_add, size_restrict]
    by_cases same : id = other
    · subst same
      have old : id.index ≠ t.size := Nat.ne_of_lt has
      rw [if_neg old, scopeAt_restrict_self has,
        scopeAt_restrict_self ((keeps_add t _ range).has has)]
    · rw [scopeAt_restrict_ne same, scopeAt_restrict_ne same, scopeAt_add]

theorem keeps_limitLast (t : Tree) (form : Form) (range : Range) (scope : FlagSet MemberKind) :
    ((t.add form range).restrict ⟨t.size⟩ scope).Keeps t := by
  have keeps := keeps_add t form range
  refine ⟨fun has => ?_, fun has => ?_, fun has => ?_⟩
  · rw [Has, size_restrict]
    exact keeps.has has
  · rw [formAt_restrict, keeps.formAt has]
  · rw [scopeAt_restrict_ne, keeps.scopeAt has]
    rintro rfl
    exact Nat.lt_irrefl _ has

/-- A name can be limited when it has just been made. -/
theorem Limited.limitLast (limited : t.Limited) (isName : form.isName) (range : Range)
    (scope : FlagSet MemberKind) : ((t.add form range).restrict ⟨t.size⟩ scope).Limited := by
  have plain {limit : NodeId × Option (FlagSet MemberKind)} : form.nameLimit? ≠ some limit := by
    cases form <;> simp only [Form.isName, Bool.false_eq_true] at isName <;>
      simp [Form.nameLimit?]
  have noEvent {header : NodeId} {statements : List NodeId} :
      form ≠ .event header statements := by
    rintro rfl
    cases isName
  refine (limited.add range (fun h => absurd h plain) (fun h => absurd h noEvent)).restrict scope
    (.inr ⟨⟨form, by rw [formAt_add, if_pos rfl], isName⟩, fun {other f limit} hf hl => ?_⟩)
  rcases add_cases (has_of_formAt hf) with ⟨-, same, -⟩ | ⟨-, same, -⟩
  · cases same.symm.trans hf
    exact plain hl
  · exact Nat.lt_irrefl _ (limited.names (same ▸ hf) hl).1

end Tree

namespace Builder

variable {b b' : Builder} {form : Form} {id : NodeId}

/-- What a builder holds on to, assignments apart, as long as the numbers last. -/
def limiting : Conduct Builder where
  keeps b := b.Numbered → b.tree.Limited
  grows b b' := b.tree.size ≤ b'.tree.size ∧ (b'.Numbered → b'.tree.Keeps b.tree)
  refl _ := ⟨Nat.le_refl _, fun _ => ⟨fun has => has, fun _ => rfl, fun _ => rfl⟩⟩
  trans first second :=
    ⟨Nat.le_trans first.1 second.1,
      fun room => (second.2 room).trans (first.2 (Nat.le_trans second.1 room))⟩
  tolerates _ := True

theorem Numbered.of_grows (room : b'.Numbered) (grows : limiting.grows b b') : b.Numbered :=
  Nat.le_trans grows.1 room

theorem leaf_eq_ok {width : Nat} (run : leaf form width b = .ok (id, b')) :
    id = b.tree.nextId ∧ ∃ range, b'.tree = b.tree.add form range := by
  obtain ⟨_, _, got, run₁⟩ := bind_eq_ok run
  cases got
  obtain ⟨stop, _, lifted, run₂⟩ := bind_eq_ok run₁
  obtain ⟨-, rfl⟩ := liftM_eq_ok lifted
  obtain ⟨next, _, lifted', run₃⟩ := bind_eq_ok run₂
  obtain ⟨-, rfl⟩ := liftM_eq_ok lifted'
  cases run₃
  exact ⟨rfl, _, rfl⟩

theorem composite_eq_ok (run : composite form b = .ok (id, b')) :
    id = b.tree.nextId ∧ ∃ range, b'.tree = b.tree.add form range := by
  obtain ⟨_, _, got, run₁⟩ := bind_eq_ok run
  cases got
  obtain ⟨range, _, lifted, run₂⟩ := bind_eq_ok run₁
  obtain ⟨-, rfl⟩ := liftM_eq_ok lifted
  cases range with
  | none => exact leaf_eq_ok run₂
  | some range =>
    cases run₂
    exact ⟨rfl, _, rfl⟩

/-- A node with a known limit. -/
def Knows (b : Builder) (id : NodeId) (limit : Option (FlagSet MemberKind)) : Prop :=
  b.Numbered → b.tree.Has id ∧ b.tree.scopeAt id = limit

theorem Knows.grows {limit : Option (FlagSet MemberKind)} (h : b.Knows id limit)
    (grows : limiting.grows b b') : b'.Knows id limit := by
  intro room
  obtain ⟨has, known⟩ := h (room.of_grows grows)
  have keeps := grows.2 room
  exact ⟨keeps.has has, (keeps.scopeAt has).trans known⟩

variable {x : Build NodeId} {name : String} {scope : FlagSet MemberKind}
  {limit : Option (FlagSet MemberKind)}

/-- What a part of building that makes one node does. -/
theorem runs_add (limited : limiting.keeps b)
    (adds : ∀ {id b'}, x b = .ok (id, b') →
      id = b.tree.nextId ∧ ∃ range, b'.tree = b.tree.add form range)
    (known : ∀ {title limit}, form.nameLimit? = some (title, limit) → b.Knows title limit)
    (event : ∀ {header statements}, form = .event header statements → b.Numbered →
      ∃ title parameters, b.tree.formAt header = some (.eventHeader title parameters) ∧
        ∀ s ∈ statements, s.index < title.index) :
    Runs limiting b x fun id b' =>
      (b'.Numbered → b.tree.size ≤ id.index ∧ b'.tree.formAt id = some form) ∧
        b'.Knows id none := by
  refine .of_forall_ok (fun _ => trivial) fun id b' run => ?_
  obtain ⟨rfl, range, same⟩ := adds run
  have size : b'.tree.size = b.tree.size + 1 := by rw [same, Tree.size_add]
  have last (room : b'.Numbered) : b.tree.nextId = ⟨b.tree.size⟩ :=
    Tree.nextId_eq (Nat.lt_of_lt_of_le (by omega) room)
  have before (room : b'.Numbered) : b.Numbered := Nat.le_trans (by omega) room
  refine ⟨⟨by omega, fun _ => ?_⟩, fun room => ?_, fun room => ⟨?_, ?_⟩, fun room => ⟨?_, ?_⟩⟩
  · rw [same]
    exact Tree.keeps_add b.tree form range
  · rw [same]
    exact (limited (before room)).add range (fun h => known h (before room))
      fun h => event h (before room)
  · exact Nat.le_of_eq (by rw [last room])
  · rw [last room, same, Tree.formAt_add, if_pos rfl]
  · rw [same]
    exact Tree.has_nextId_add ..
  · rw [last room, same, Tree.scopeAt_add, if_pos rfl]

theorem steady_add (plain : form.isPlain)
    (adds : ∀ {b id b'}, x b = .ok (id, b') →
      id = b.tree.nextId ∧ ∃ range, b'.tree = b.tree.add form range) : Steady limiting x := by
  intro b id b' limited run
  have known {title : NodeId} {limit : Option (FlagSet MemberKind)} :
      form.nameLimit? ≠ some (title, limit) := by
    cases form <;> simp_all [Form.isPlain, Form.nameLimit?]
  have noEvent {header : NodeId} {statements : List NodeId} :
      form ≠ .event header statements := by
    rintro rfl
    cases plain
  obtain ⟨grows, kept, -⟩ := (runs_add limited adds (fun h => absurd h known)
    (fun h => absurd h noEvent)).of_ok run
  exact ⟨grows, kept⟩

theorem steady_plain (plain : form.isPlain) : Steady limiting (composite form) :=
  steady_add plain composite_eq_ok

theorem runs_identifier (name : String) (limited : limiting.keeps b) :
    Runs limiting b (identifier name) fun id b' =>
      (b'.Numbered → b.tree.size ≤ id.index) ∧ b'.Knows id none := by
  refine (runs_add limited leaf_eq_ok (by simp [Form.nameLimit?]) (by simp)).imp ?_
  rintro id b' - - ⟨made, knows⟩
  exact ⟨fun room => (made room).1, knows⟩

/-- A name that is limited as soon as it is made. -/
theorem runs_limitLast (isName : form.isName) (limited : limiting.keeps b)
    (adds : ∀ {id b'}, x b = .ok (id, b') →
      id = b.tree.nextId ∧ ∃ range, b'.tree = b.tree.add form range) :
    Runs limiting b (x >>= fun id => restrict id scope >>= fun _ => pure id)
      fun id b' => b'.Knows id (some scope) := by
  refine .of_forall_ok (fun _ => trivial) fun id b' run => ?_
  obtain ⟨_, b₁, made, run₁⟩ := bind_eq_ok run
  obtain ⟨rfl, range, same⟩ := adds made
  cases run₁
  have size : (b₁.tree.restrict b.tree.nextId scope).size = b.tree.size + 1 := by
    rw [Tree.size_restrict, same, Tree.size_add]
  have last (room : (b₁.tree.restrict b.tree.nextId scope).size ≤ NodeId.limit) :
      b.tree.size < NodeId.limit ∧ b.tree.nextId = ⟨b.tree.size⟩ := by
    rw [size] at room
    exact ⟨room, Tree.nextId_eq room⟩
  have has : b₁.tree.Has b.tree.nextId := same ▸ Tree.has_nextId_add ..
  refine ⟨⟨size ▸ Nat.le_succ _, fun room => ?_⟩, fun room => ?_, fun room => ⟨?_, ?_⟩⟩
  · change (b₁.tree.restrict b.tree.nextId scope).Keeps b.tree
    rw [(last room).2, same]
    exact Tree.keeps_limitLast b.tree form range scope
  · change (b₁.tree.restrict b.tree.nextId scope).Limited
    rw [(last room).2, same]
    exact (limited (Nat.le_of_lt (last room).1)).limitLast isName range scope
  · rw [Tree.Has, Tree.size_restrict]
    exact has
  · exact Tree.scopeAt_restrict_self has

theorem runs_identifierFor (name : String) (scope : FlagSet MemberKind)
    (limited : limiting.keeps b) :
    Runs limiting b (identifierFor name scope) fun id b' => b'.Knows id (some scope) :=
  runs_limitLast rfl limited leaf_eq_ok

theorem steady_identifier (name : String) : Steady limiting (identifier name) :=
  steady_add rfl leaf_eq_ok

theorem steady_identifierFor (name : String) (scope : FlagSet MemberKind) :
    Steady limiting (identifierFor name scope) := by
  intro b id b' limited run
  obtain ⟨grows, kept, -⟩ := (runs_identifierFor name scope limited).of_ok run
  exact ⟨grows, kept⟩

theorem steady_typeName (name : String) : Steady limiting (typeName name) := by
  refine .bind (steady_identifier _) fun title b id b' limited run => ?_
  obtain ⟨grows, kept, -⟩ := (runs_limitLast rfl limited composite_eq_ok).of_ok run
  exact ⟨grows, kept⟩

theorem steady_mapM {α : Type} {xs : List α} {f : α → Build NodeId}
    (each : ∀ a, Steady limiting (f a)) : Steady limiting (xs.mapM f) := by
  induction xs with
  | nil => exact .pure _
  | cons a xs ih =>
    rw [List.mapM_cons]
    exact .bind (each a) fun _ => .bind ih fun _ => .pure _

theorem steady_mapM_option {f : String → Build NodeId} (each : ∀ text, Steady limiting (f text))
    (text : Option String) : Steady limiting (text.mapM f) := by
  cases text with
  | none => exact .pure _
  | some text => exact .bind (each text) fun _ => .pure _

theorem steady_asArgument (id : NodeId) : Steady limiting (asArgument id) := by
  refine .bind .get fun b => .bind (.lift _) fun form => ?_
  split
  · exact .pure _
  · exact steady_plain rfl

/-! ## Calls -/

theorem runs_of_steady {α : Type} {x : Build α} (h : Steady limiting x)
    (limited : limiting.keeps b) :
    Runs limiting b x fun _ _ => True := by
  refine .of_forall_ok (fun _ => trivial) fun a b' run => ?_
  obtain ⟨grows, kept⟩ := h limited run
  exact ⟨grows, kept, trivial⟩

/-- A phrase that declares something by a name with the limit for it. -/
theorem runs_titled {title : NodeId} (limited : limiting.keeps b)
    (titled : form.nameLimit? = some (title, limit)) (knows : b.Knows title limit) :
    Runs limiting b (composite form) fun id b' =>
      b'.Numbered → b'.tree.formAt id = some form := by
  refine (runs_add limited composite_eq_ok (fun h => ?_) fun same => ?_).imp ?_
  · cases titled.symm.trans h
    exact knows
  · rw [same] at titled
    cases titled
  · rintro id b' - - ⟨made, -⟩ room
    exact (made room).2

theorem runs_event {parameters statements : List NodeId} (name : String)
    (limited : limiting.keeps b) (given : b.Holds statements) :
    Runs limiting b (event name parameters statements) fun _ _ => True := by
  refine .bind (runs_identifier name limited) ?_
  rintro title b₁ - kept₁ ⟨fresh, knows⟩
  refine .bind (runs_of_steady (steady_plain rfl) kept₁) fun list b₂ grows₂ kept₂ _ => ?_
  refine .bind (runs_titled kept₂ rfl (knows.grows grows₂)) fun header b₃ grows₃ kept₃ made => ?_
  refine (runs_add kept₃ composite_eq_ok (by simp [Form.nameLimit?]) ?_).imp
    fun _ _ _ _ _ => trivial
  rintro _ _ ⟨⟩ room
  have later := fresh ((room.of_grows grows₃).of_grows grows₂)
  exact ⟨title, list, made room, fun s hs => Nat.lt_of_lt_of_le (given s hs) later⟩

theorem runs_function {parameters statements : List NodeId} (returnType : Option String)
    (name : String) (modifiers : FlagSet Modifier) (limited : limiting.keeps b) :
    Runs limiting b (function returnType name parameters modifiers statements)
      fun _ _ => True := by
  refine .bind (runs_of_steady (steady_mapM_option steady_typeName returnType) limited)
    fun returnType b₁ _ kept₁ _ => ?_
  refine .bind (runs_identifierFor name _ kept₁) fun title b₂ _ kept₂ knows => ?_
  refine .bind (runs_of_steady (steady_plain rfl) kept₂) fun list b₃ grows₃ kept₃ _ => ?_
  refine .bind (runs_titled kept₃ rfl (knows.grows grows₃)) fun header b₄ _ kept₄ _ => ?_
  exact runs_of_steady (steady_plain rfl) kept₄

theorem runs_script {imports definitions : List NodeId} (name : String) (extended : Option String)
    (modifiers : FlagSet Modifier) (limited : limiting.keeps b) :
    Runs limiting b (script name extended modifiers imports definitions) fun _ _ => True := by
  refine .bind (runs_identifier name limited) fun title b₁ _ kept₁ named => ?_
  refine .bind (runs_of_steady (steady_mapM_option steady_identifier extended) kept₁)
    fun extended b₂ grows₂ kept₂ _ => ?_
  refine .bind (runs_titled kept₂ rfl (named.2.grows grows₂)) fun header b₃ _ kept₃ _ => ?_
  exact runs_of_steady (steady_plain rfl) kept₃

/-- A phrase with a type and a name. -/
theorem runs_typed {f : NodeId → NodeId → Form} (type name : String) (limited : limiting.keeps b)
    (titled : ∀ type title, (f type title).nameLimit? = some (title, none)) :
    Runs limiting b (do let type ← typeName type; composite (f type (← identifier name)))
      fun _ _ => True := by
  refine .bind (runs_of_steady (steady_typeName type) limited) fun type b₁ _ kept₁ _ => ?_
  refine .bind (runs_identifier name kept₁) fun title b₂ _ kept₂ named => ?_
  exact (runs_titled kept₂ (titled type title) named.2).imp fun _ _ _ _ _ => trivial

/-- A phrase with a name. -/
theorem runs_named {f : NodeId → Form} (name : String) (limited : limiting.keeps b)
    (titled : ∀ title, (f title).nameLimit? = some (title, none)) :
    Runs limiting b (do composite (f (← identifier name))) fun _ _ => True := by
  refine .bind (runs_identifier name limited) fun title b₁ _ kept₁ named => ?_
  exact (runs_titled kept₁ (titled title) named.2).imp fun _ _ _ _ _ => trivial

theorem runs_property (type name : String) (modifiers : FlagSet Modifier) (functions : List NodeId)
    (limited : limiting.keeps b) :
    Runs limiting b (property type name modifiers functions) fun _ _ => True := by
  refine .bind (runs_of_steady (steady_typeName type) limited) fun type b₁ _ kept₁ _ => ?_
  refine .bind (runs_identifierFor name _ kept₁) fun title b₂ _ kept₂ knows => ?_
  exact (runs_titled kept₂ rfl knows).imp fun _ _ _ _ _ => trivial

theorem runs_optionalParameter (type name : String) (default : Literal)
    (limited : limiting.keeps b) :
    Runs limiting b (optionalParameter type name default) fun _ _ => True := by
  refine .bind (runs_of_steady (steady_typeName type) limited) fun type b₁ _ kept₁ _ => ?_
  refine .bind (runs_identifier name kept₁) fun title b₂ _ kept₂ named => ?_
  refine .bind (runs_of_steady (steady_add rfl leaf_eq_ok) kept₂) fun value b₃ grows₃ kept₃ _ => ?_
  exact (runs_titled kept₃ rfl (named.2.grows grows₃)).imp fun _ _ _ _ _ => trivial

/-- Every call holds on to the limits. -/
theorem Call.limits (c : Call) (limited : limiting.keeps b) (given : b.Holds c.nodes)
    (run : c.run b = .ok (id, b')) : limiting.keeps b' := by
  have ofRuns {α : Type} {x : Build α} {a : α} {post : α → Builder → Prop}
      (h : Runs limiting b x post) (run : x b = .ok (a, b')) : limiting.keeps b' :=
    (h.of_ok run).2.1
  have ofSteady {α : Type} {x : Build α} {a : α} (h : Steady limiting x)
      (run : x b = .ok (a, b')) : limiting.keeps b' :=
    (h limited run).2
  cases c with
  | identifier name => exact ofSteady (steady_identifier name) run
  | typeName name => exact ofSteady (steady_typeName name) run
  | literal value => exact ofSteady (steady_add rfl leaf_eq_ok) run
  | literalExpression value =>
    exact ofSteady (.bind (steady_add rfl leaf_eq_ok) fun _ => steady_plain rfl) run
  | reference name =>
    exact ofSteady (.bind (steady_identifierFor name _) fun _ => steady_plain rfl) run
  | memberAccess | argument | binary | unary | index | expressionStatement | returnStatement
  | whileLoop => exact ofSteady (steady_plain rfl) run
  | namedArgument | state | group | importLine =>
    exact ofSteady (.bind (steady_identifier _) fun _ => steady_plain rfl) run
  | cast | typeTest | newStruct | newArray =>
    exact ofSteady (.bind (steady_typeName _) fun _ => steady_plain rfl) run
  | call name arguments =>
    exact ofSteady (.bind (steady_identifierFor name _) fun _ =>
      .bind (steady_mapM steady_asArgument) fun _ => steady_plain rfl) run
  | ifChain branches =>
    exact ofSteady (.bind (steady_mapM fun _ => steady_plain rfl) fun _ => steady_plain rfl) run
  | customEvent name => exact ofRuns (runs_named name limited fun _ => rfl) run
  | struct name members => exact ofRuns (runs_named name limited fun _ => rfl) run
  | declaration type name initial => exact ofRuns (runs_typed type name limited fun _ _ => rfl) run
  | variableDefinition type name modifiers initial =>
    exact ofRuns (runs_typed type name limited fun _ _ => rfl) run
  | parameter type name => exact ofRuns (runs_typed type name limited fun _ _ => rfl) run
  | property type name modifiers functions =>
    exact ofRuns (runs_property type name modifiers functions limited) run
  | optionalParameter type name default =>
    exact ofRuns (runs_optionalParameter type name default limited) run
  | function returnType name parameters modifiers statements =>
    exact ofRuns (runs_function returnType name modifiers limited) run
  | event name parameters statements =>
    exact ofRuns (runs_event name limited (given.sub (by simp +contextual))) run
  | script name extended modifiers imports definitions =>
    exact ofRuns (runs_script name extended modifiers limited) run
  | assignment left operator right =>
    cases left with
    | none => exact ofSteady (steady_plain rfl) run
    | some left =>
      obtain ⟨_, _, restricted, run₁⟩ := bind_eq_ok run
      cases restricted
      obtain ⟨-, range, same⟩ := composite_eq_ok run₁
      intro room
      have before : b.Numbered := by
        rw [Numbered, same, Tree.size_add, Tree.size_restrict] at room
        exact Nat.le_of_succ_le room
      rw [same]
      exact (limited before).assign (given left (by simp)) _ range

theorem limited_empty : Tree.empty.Limited where
  names h := by cases h
  others h := by cases h
  events h := by cases h

/-- The limits of a tree that has been built. -/
theorem Built.limited {ids : List NodeId} (built : Built b ids) : b.tree.Limited := by
  induction built with
  | empty => exact limited_empty
  | call built earlier run room ih =>
    exact Call.limits _ (fun _ => ih) (built.laid.2.sub earlier) run room

/-! ## Trees that have been built -/

theorem Stride.grown (h : Stride b b') (grown : b.tree.Grown) (room : b'.Numbered) :
    b'.tree.Grown := by
  unfold Numbered at room
  cases h with
  | leaf => exact .add _ _ (Nat.lt_of_succ_le (by simpa using room)) grown
  | around => exact .add _ _ (Nat.lt_of_succ_le (by simpa using room)) grown
  | restrict => exact .restrict _ _ grown

theorem grown_of_grows (h : building.grows b b') (grown : b.tree.Grown) (room : b'.Numbered) :
    b'.tree.Grown := by
  induction h with
  | refl => exact grown
  | tail _ last ih => exact last.grown (ih (Nat.le_trans last.size_le room)) room

theorem Built.grown {ids : List NodeId} (built : Built b ids) : b.tree.Grown := by
  induction built with
  | empty => exact .empty
  | @call b b' ids id c built earlier run room ih =>
    exact grown_of_grows ((c.makes (built.laid.2.sub earlier)).of_ok run).1 ih room

/-- If no node is used twice, then what has been built is a tree. -/
theorem Built.wellFormed {ids : List NodeId} (built : Built b ids) (once : b.tree.UsesOnce) :
    b.tree.WellFormed where
  grown := built.grown
  descending _ _ hn := built.laid.1.parts (Tree.formAt_eq hn)
  once := once

theorem Built.ordered {ids : List NodeId} (built : Built b ids) : b.tree.Ordered := by
  intro id node hn
  have range : b.tree.rangeAt id = some node.range := by rw [Tree.rangeAt, hn, Option.map_some]
  exact Nat.le_of_lt (built.laid.1.bounds range).1

end Builder

end PapyrusAnalysis
