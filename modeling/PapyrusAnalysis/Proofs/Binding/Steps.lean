import PapyrusAnalysis.Proofs.Binding.Furnished
import PapyrusAnalysis.Proofs.Steady

/-!
# Steps of binding

What was reported before a step of binding plays no part in it: from the same symbols it gives the
same answer and the same symbols, and adds the same to the report. The rules for such steps follow
the way in which they are put together.

Binding changes its state in three ways: it makes the symbol of a declaration, it writes down more
about a symbol, and it registers a script. A `Setting` names a tree, an invariant that these keep
and the faults that can be met. If every node of the tree comes after its parts then nothing is
missing from it; otherwise any fault can be met.

## Main definitions

* `Binding.Binds`: a step that behaves, whatever was reported before.
* `Binding.place?`: the table and the container that keep the name of a declaration.
* `Binding.Makes`: what a declaration does to the state of binding.
* `Binding.Steps`: the ways in which binding changes its state keep an invariant.
* `Binding.Setting`: a tree to bind, with an invariant and the faults that can be met.
* `Binding.Declares`: the symbols of some nodes are made.
-/

namespace PapyrusAnalysis

namespace Binding

variable {α β : Type} {t : Tree} {symbols symbols' : SymbolTable} {id : SymbolId}
  {kind : SymbolKind} {node identifier : NodeId} {name : String} {b b' : Binding}

/-! ## Rules -/

/-- A step of binding behaves, and it does the same whatever was reported before. -/
structure Binds (C : Conduct Binding) (b : Binding) (x : Binder α) (post : α → Binding → Prop) :
    Prop where
  runs : Runs C b x post
  impartial : ∀ {report a b'}, x ⟨b.symbols, report⟩ = .ok (a, b') → ∃ more,
    b'.report = report ++ more ∧
      ∀ before, x ⟨b.symbols, before⟩ = .ok (a, ⟨b'.symbols, before ++ more⟩)

namespace Binds

variable {C D : Conduct Binding} {x : Binder α} {post : α → Binding → Prop}

theorem imp {post' : α → Binding → Prop} (h : Binds C b x post)
    (weaken : ∀ a b', C.grows b b' → C.keeps b' → post a b' → post' a b') : Binds C b x post' :=
  ⟨h.runs.imp weaken, h.impartial⟩

/-- What a step comes to may be all that another conduct asks for. -/
theorem under (h : Binds C b x post) (grows : ∀ a b', post a b' → C.grows b b' → D.grows b b')
    (keeps : ∀ a b', post a b' → C.keeps b' → D.keeps b')
    (tolerates : ∀ e, C.tolerates e → D.tolerates e) : Binds D b x post := by
  refine ⟨?_, h.impartial⟩
  cases h.runs with
  | done run grown kept holds =>
    exact .done run (grows _ _ holds grown) (keeps _ _ holds kept) holds
  | fault run tolerated => exact .fault run (tolerates _ tolerated)

theorem pure {a : α} (kept : C.keeps b) (h : post a b) : Binds C b (Pure.pure a) post := by
  refine ⟨.pure kept h, ?_⟩
  rintro report _ _ ⟨⟩
  exact ⟨[], by simp, fun before => by rw [List.append_nil]; rfl⟩

theorem bind {f : α → Binder β} {last : β → Binding → Prop} (h : Binds C b x post)
    (next : ∀ a b', C.grows b b' → C.keeps b' → post a b' → Binds C b' (f a) last) :
    Binds C b (x >>= f) last := by
  refine ⟨h.runs.bind fun a b' grows kept holds => (next a b' grows kept holds).runs, ?_⟩
  intro report c u run
  obtain ⟨a, ⟨symbols', report'⟩, first, rest⟩ := bind_eq_ok run
  obtain ⟨more, rfl, again⟩ := h.impartial first
  -- The next step is known from where the first one leads after the report that is there.
  obtain ⟨grows, kept, holds⟩ := h.runs.of_ok (again b.report)
  obtain ⟨more', added, again'⟩ := (next a _ grows kept holds).impartial rest
  refine ⟨more ++ more', by rw [added, List.append_assoc], fun before => ?_⟩
  rw [bind_ok (again before), again', List.append_assoc]

/-- A step that needs no state may meet a fault. -/
theorem lift {o : Outcome β} {f : β → Binder α} (met : ∀ e, o = .error e → C.tolerates e)
    (next : ∀ c, o = .ok c → Binds C b (f c) post) : Binds C b (liftM o >>= f) post := by
  cases ho : o with
  | error e =>
    refine ⟨.fault (bind_error (liftM_error rfl b)) (met e ho), fun run => ?_⟩
    rw [bind_error (liftM_error rfl _)] at run
    cases run
  | ok c => exact liftM_bind_ok (σ := Binding) (o := .ok c) rfl f ▸ next c ho

/-- A step may read the symbols. -/
theorem read {f : Binding → Binder α} (reads : ∀ report, f ⟨b.symbols, report⟩ = f b)
    (h : Binds C b (f b) post) : Binds C b (get >>= f) post := by
  refine ⟨.get h.runs, fun run => ?_⟩
  rw [bind_ok rfl, reads] at run
  obtain ⟨more, added, again⟩ := h.impartial run
  exact ⟨more, added, fun before => by rw [bind_ok rfl, reads, again]⟩

/-- A step may change the symbols. -/
theorem write {g : SymbolTable → SymbolTable} {post : PUnit → Binding → Prop}
    (grows : C.grows b { b with symbols := g b.symbols })
    (kept : C.keeps { b with symbols := g b.symbols })
    (h : post ⟨⟩ { b with symbols := g b.symbols }) :
    Binds C b (modify fun b => { b with symbols := g b.symbols }) post := by
  refine ⟨.done rfl grows kept h, ?_⟩
  rintro report _ _ ⟨⟩
  exact ⟨[], by simp, fun before => by rw [List.append_nil]; rfl⟩

theorem throw {e : Fault} (tolerated : C.tolerates e) :
    Binds C b (MonadExcept.throw e : Binder α) post := by
  refine ⟨.fault rfl tolerated, ?_⟩
  rintro report _ _ ⟨⟩

end Binds

/-! ## What a declaration does -/

section Makes

variable {parent : Option SymbolId}

/-- The table and the container that keep the name of a declaration. -/
def place? (t : Tree) (kind : SymbolKind) (node : NodeId) : Option (TableKind × NodeId) :=
  (tableOf kind).bind fun table => (keeper? t table node).toOption.join.map (table, ·)

/-- The diagnostic that asks for the name of a declaration. -/
def lack? (t : Tree) (node : NodeId) : Option Diagnostic :=
  (t.node? node).bind fun n => (Diagnostic.about n.range .identifierExpected []).toOption

/-- What a declaration does to the state of binding: it makes one symbol, and complains if there is
no name or another symbol has it. -/
inductive Makes (t : Tree) (kind : SymbolKind) (node : NodeId) (name : String)
    (parent : Option SymbolId) (b : Binding) : Binding → Prop where
  | nameless {d : Diagnostic} (empty : name.isEmpty = true) (complains : lack? t node = some d) :
      Makes t kind node name parent b
        ⟨b.symbols.create kind unnamed parent node, b.report ++ [d]⟩
  | unkept (named : name.isEmpty = false) (nowhere : place? t kind node = none) :
      Makes t kind node name parent b ⟨b.symbols.create kind name parent node, b.report⟩
  | entered {place : TableKind × NodeId} (named : name.isEmpty = false)
      (kept : place? t kind node = some place)
      (vacant : (b.symbols.names place.1 place.2).contains (Text.lowercase name) = false) :
      Makes t kind node name parent b
        ⟨(b.symbols.create kind name parent node).enter place.1 place.2 name b.symbols.next,
          b.report⟩
  | refused {place : TableKind × NodeId} {holder : SymbolId} {d : Diagnostic}
      (named : name.isEmpty = false) (kept : place? t kind node = some place)
      (taken : (b.symbols.names place.1 place.2).find? (Text.lowercase name) = some holder)
      (complains : refusal? t node name = some d) :
      Makes t kind node name parent b
        ⟨b.symbols.create kind name parent node, b.report ++ [d]⟩

theorem place?_of_keeper {table : TableKind} {found : Option NodeId}
    (htable : tableOf kind = some table) (keeper : keeper? t table node = .ok found) :
    place? t kind node = found.map (table, ·) := by
  simp [place?, htable, keeper, Except.toOption]

theorem keeper_of_place? {place : TableKind × NodeId} (h : place? t kind node = some place) :
    tableOf kind = some place.1 ∧ keeper? t place.1 node = .ok (some place.2) := by
  obtain ⟨table, htable, kept⟩ := Option.bind_eq_some_iff.1 h
  obtain ⟨container, found, rfl⟩ := Option.map_eq_some_iff.1 kept
  refine ⟨htable, ?_⟩
  cases keeper : keeper? t table node with
  | error e => simp [keeper, Except.toOption] at found
  | ok answer =>
    rw [keeper] at found
    exact congrArg Except.ok found

namespace Makes

/-- Apart from its table of names, all that a declaration changes is that there is one more
symbol. -/
theorem symbols_eq (h : Makes t kind node name parent b b') :
    b'.symbols.get? = (b.symbols.create kind (title name) parent node).get? ∧
      b'.symbols.size = b.symbols.size + 1 ∧ b'.symbols.scripts = b.symbols.scripts := by
  have created (name : String) : (b.symbols.create kind name parent node).size =
      b.symbols.size + 1 ∧ (b.symbols.create kind name parent node).scripts = b.symbols.scripts :=
    ⟨by simp, by simp⟩
  have htitle (named : name.isEmpty = false) : title name = name := by simp [title, named]
  cases h with
  | nameless empty _ =>
    rw [show title name = unnamed by simp [title, empty]]
    exact ⟨rfl, created unnamed⟩
  | unkept named _ => exact ⟨by rw [htitle named], created name⟩
  | entered named _ _ =>
    rw [htitle named]
    exact ⟨rfl, created name⟩
  | refused named _ _ _ => exact ⟨by rw [htitle named], created name⟩

/-- The symbol that a declaration makes. -/
theorem get?_next (h : Makes t kind node name parent b b') :
    b'.symbols.get? b.symbols.next =
      some { b.symbols.fresh kind (title name) parent with declaration := some node } := by
  rw [h.symbols_eq.1, SymbolTable.get?_create, if_pos rfl]

theorem get?_of_ne (h : Makes t kind node name parent b b') (ne : id ≠ b.symbols.next) :
    b'.symbols.get? id = b.symbols.get? id := by
  rw [h.symbols_eq.1, SymbolTable.get?_create, if_neg ne]

theorem nodes_eq (h : Makes t kind node name parent b b') (base : b.symbols.base = 0) :
    nodes b'.symbols = nodes b.symbols ++ [node] := by
  rw [← nodes_create base kind (title name) parent node]
  exact nodes_congr (by simpa using h.symbols_eq.2.1) fun id => by rw [h.symbols_eq.1]

theorem grows {free : SymbolId → Prop} (h : Makes t kind node name parent b b') :
    Grows free b.symbols b'.symbols := by
  cases h with
  | nameless _ _ => exact grows_create _ _ _ _ _
  | unkept _ _ => exact grows_create _ _ _ _ _
  | entered _ _ vacant =>
    exact (grows_create _ _ _ _ _).trans (grows_enter (by rwa [SymbolTable.names_create]))
  | refused _ _ _ _ => exact grows_create _ _ _ _ _

/-- The new symbol is not furnished yet. -/
theorem adds (h : Makes t kind node name parent b b') :
    Adds t (· = b.symbols.next) b.symbols b'.symbols :=
  h.grows.adds fun _ _ some fixed none => by
    rw [h.get?_of_ne fixed, none] at some
    cases some

theorem sound (h : Makes t kind node (t.nameAt identifier) parent b b')
    (sound : Sound t b.symbols) (hd : t.declaration? node = some (kind, identifier))
    (top : kind = .script ↔ parent = none) (known : ∀ p, parent = some p → b.symbols.owns p) :
    Sound t b'.symbols := by
  cases h with
  | nameless empty _ => exact sound.create hd (by simp [title, empty]) top known
  | unkept named _ => exact sound.create hd (by simp [title, named]) top known
  | entered named kept vacant =>
    have created : (b.symbols.create kind (t.nameAt identifier) parent node).get? b.symbols.next =
        some { b.symbols.fresh kind (t.nameAt identifier) parent with
          declaration := some node } := by
      rw [SymbolTable.get?_create, if_pos rfl]
    exact (sound.create hd (by simp [title, named]) top known).enter
      (by rwa [SymbolTable.names_create]) created rfl rfl (keeper_of_place? kept).2
  | refused named _ _ _ => exact sound.create hd (by simp [title, named]) top known

end Makes

end Makes

/-! ## Settings -/

/-- The ways in which binding changes its state keep an invariant. -/
structure Steps (t : Tree) (I : Binding → Prop) : Prop where
  makes : ∀ {b b' kind node identifier parent}, Sound t b.symbols → I b →
    t.declaration? node = some (kind, identifier) →
    Makes t kind node (t.nameAt identifier) parent b b' → I b'
  change : ∀ {b} id {f : Symbol → Symbol}, I b → (∀ s : Symbol, s.Retains (f s)) →
    I { b with symbols := b.symbols.update id f }
  register : ∀ {b} name id, I b → I { b with symbols := b.symbols.registerScript name id }

/-- Nothing needs to be kept beside the soundness of the symbols. -/
theorem steps_true (t : Tree) : Steps t fun _ => True :=
  ⟨fun _ _ _ _ => trivial, fun _ _ _ _ => trivial, fun _ _ _ => trivial⟩

/-- A tree to bind, an invariant to keep, and the faults that can be met on the way. -/
structure Setting where
  tree : Tree
  invariant : Binding → Prop
  steps : Steps tree invariant
  tolerates : Fault → Prop
  complete : tree.Descending ∨ ∀ e, tolerates e
  exhaustion : tolerates .symbolsExhausted
  measured : ∀ {id node}, tree.node? id = some node →
    node.range.start ≤ node.range.stop ∨ tolerates (.reversedRange node.range.start node.range.stop)

namespace Setting

/-- Binding any tree with any fault. -/
def lenient {t : Tree} {I : Binding → Prop} (steps : Steps t I) : Setting where
  tree := t
  invariant := I
  steps := steps
  tolerates _ := True
  complete := .inr fun _ => trivial
  exhaustion := trivial
  measured _ := .inr trivial

/-- Binding a well-formed tree with no fault but that the numbers for symbols are used up. -/
def strict {t : Tree} (descending : t.Descending) (ordered : t.Ordered) : Setting where
  tree := t
  invariant _ := True
  steps := steps_true t
  tolerates e := e = .symbolsExhausted
  complete := .inl descending
  exhaustion := rfl
  measured hn := .inl (ordered _ _ hn)

variable (w : Setting)

/-- What is so between the steps of binding. -/
structure Keeps (b : Binding) : Prop where
  sound : Sound w.tree b.symbols
  invariant : w.invariant b

/-- What binding holds on to while some symbols are free to change. -/
def conduct (free : SymbolId → Prop) : Conduct Binding where
  keeps := w.Keeps
  grows b b' := Adds w.tree free b.symbols b'.symbols
  refl b := .refl b.symbols
  trans h h' := h.trans h'
  tolerates := w.tolerates

/-- What binding holds on to between declarations. -/
def strictly : Conduct Binding := w.conduct fun _ => False

/-- Nothing is held on to while a symbol is being made. -/
def loosely : Conduct Binding where
  keeps _ := True
  grows _ _ := True
  refl _ := trivial
  trans _ _ := trivial
  tolerates := w.tolerates

/-- What is asked of the tree has an answer, or the fault can be met. -/
def Bears {γ : Type} (o : Outcome γ) : Prop := ∀ e, o = .error e → w.tolerates e

variable {w}

theorem bears_of {γ : Type} {o : Outcome γ} (h : w.tree.Descending → ∃ c, o = .ok c) :
    w.Bears o := by
  intro e he
  rcases w.complete with descending | tolerant
  · obtain ⟨c, hc⟩ := h descending
    cases hc.symm.trans he
  · exact tolerant e

theorem bears_form (h : w.tree.Has node ∨ ∀ e, w.tolerates e) : w.Bears (w.tree.form node) := by
  intro e he
  rcases h with has | tolerant
  · obtain ⟨n, hn⟩ := has.node?
    cases (Tree.form_eq_ok hn).symm.trans he
  · exact tolerant e

/-- The parts of a node can be read. -/
theorem bears_part {form : Form} (hform : w.tree.form node = .ok form) {child : NodeId}
    (hc : child ∈ form.children) : w.Bears (w.tree.form child) :=
  bears_form (w.complete.imp_left fun descending => has_of_form descending hform hc)

/-- A step that keeps to all symbols may stand where one of them is free to change. -/
theorem relax {x : Binder α} {post : α → Binding → Prop} {free : SymbolId → Prop}
    (h : Binds w.strictly b x post) : Binds (w.conduct free) b x post :=
  h.under (fun _ _ _ grows => Adds.relax grows) (fun _ _ _ kept => kept)
    fun _ tolerated => tolerated

/-- When a declaration is done no symbol is free to change. -/
theorem close {x : Binder α} {post : α → Binding → Prop} (h : Binds (w.conduct (· = id)) b x post)
    (new : b.symbols.get? id = none) (done : ∀ a b', post a b' → ∀ symbol,
      b'.symbols.get? id = some symbol → Furnished w.tree b'.symbols id symbol) :
    Binds w.strictly b x post :=
  h.under (fun a b' holds grows => Adds.close grows new (done a b' holds)) (fun _ _ _ kept => kept)
    fun _ tolerated => tolerated

end Setting

/-! ## Symbols that are made -/

variable {b'' : Binding} {made made' : List NodeId} {w : Setting} {parent : Option SymbolId}

/-- The symbols of some nodes are made, in their order, and no script is registered. -/
structure Declares (t : Tree) (b : Binding) (made : List NodeId) (b' : Binding) : Prop where
  scripts : b'.symbols.scripts = b.symbols.scripts
  nodes : t.Descending → nodes b'.symbols = nodes b.symbols ++ made

theorem Declares.refl : Declares t b [] b := ⟨rfl, fun _ => by simp⟩

theorem Declares.trans (h : Declares t b made b') (h' : Declares t b' made' b'') :
    Declares t b (made ++ made') b'' where
  scripts := h'.scripts.trans h.scripts
  nodes descending := by rw [h'.nodes descending, h.nodes descending, List.append_assoc]

theorem Declares.congr (h : Declares t b made b') (same : t.Descending → made = made') :
    Declares t b made' b' :=
  ⟨h.scripts, fun descending => same descending ▸ h.nodes descending⟩

theorem Makes.declares (sound : Sound t b.symbols) (h : Makes t kind node name parent b b') :
    Declares t b [node] b' :=
  ⟨h.symbols_eq.2.2, fun _ => h.nodes_eq sound.base⟩

/-! ## Primitive steps -/

theorem binds_complain {n : Node} (hn : w.tree.node? node = some n) (message : Message)
    (arguments : List String) :
    Binds w.loosely b (complain n.range message arguments) fun _ b' =>
      ∃ d, Diagnostic.about n.range message arguments = .ok d ∧
        b' = { b with report := b.report ++ [d] } := by
  refine .lift ?_ fun d hd => ⟨.done rfl trivial trivial ⟨d, hd, rfl⟩, ?_⟩
  · intro e he
    rcases about_eq n.range message arguments with ⟨d, hd, -⟩ | ⟨he', reversed⟩
    · cases hd.symm.trans he
    · cases he.symm.trans he'
      exact (w.measured hn).resolve_left reversed
  · rintro report _ _ ⟨⟩
    exact ⟨[d], rfl, fun before => rfl⟩

theorem binds_create : Binds w.loosely b (create kind name parent node) fun id b' =>
    id = b.symbols.next ∧ b' = { b with symbols := b.symbols.create kind name parent node } := by
  unfold create
  refine ⟨.get ?_, fun made => ?_⟩
  · rw [SymbolTable.add_eq]
    split
    · exact .lift rfl (.done rfl trivial trivial ⟨rfl, rfl⟩)
    · exact .fault (bind_error (liftM_error rfl b)) w.exhaustion
  · rw [bind_ok rfl, SymbolTable.add_eq] at made
    split at made
    · rename_i room
      cases made
      refine ⟨[], by simp, fun before => ?_⟩
      rw [bind_ok rfl, SymbolTable.add_eq, if_pos room, List.append_nil]
      rfl
    · cases made

/-- A name is entered, or a diagnostic says that another symbol has it. -/
theorem binds_enterName {n : Node} {table : TableKind} (hn : w.tree.node? node = some n)
    (named : name.isEmpty = false) (htable : tableOf kind = some table) :
    Binds w.loosely { b with symbols := b.symbols.create kind name parent node }
      (enterName w.tree table node name b.symbols.next) fun _ b' =>
        Makes w.tree kind node name parent b b' := by
  have keeper : ∃ found, keeper? w.tree table node = .ok found := by
    rw [keeper?, Tree.ancestors_eq_ok hn]
    exact ⟨_, rfl⟩
  refine .lift (fun e he => by cases keeper.choose_spec.symm.trans he) fun found hfound => ?_
  have kept := place?_of_keeper htable hfound
  cases found with
  | none => exact .pure trivial (.unkept named kept)
  | some container =>
    refine .read (fun _ => rfl) ?_
    dsimp only
    rw [SymbolTable.names_create]
    split
    · rename_i taken
      obtain ⟨holder, hfind⟩ := Registry.contains_iff.1 taken
      refine .lift (fun e he => by cases (Tree.range_eq_ok hn).symm.trans he) fun range hrange => ?_
      cases (Tree.range_eq_ok hn).symm.trans hrange
      refine (binds_complain hn _ _).imp ?_
      rintro _ _ - - ⟨d, about, rfl⟩
      exact .refused named kept hfind (by simp [refusal?, hn, about, Except.toOption])
    · rename_i vacant
      exact .write
        (g := fun _ =>
          (b.symbols.create kind name parent node).enter table container name b.symbols.next)
        trivial trivial (.entered named kept (Bool.eq_false_iff.2 vacant))

/-- All that a declaration can do. -/
theorem makes_declare (hd : w.tree.declaration? node = some (kind, identifier)) :
    Binds w.loosely b (declare w.tree kind node identifier parent (tableOf kind)) fun made b' =>
      made = (b.symbols.next, isNamed w.tree identifier) ∧
        (∃ name, w.tree.nameOf identifier = .ok name) ∧
        Makes w.tree kind node (w.tree.nameAt identifier) parent b b' := by
  obtain ⟨n, hn⟩ := Tree.node?_of_declaration? hd
  have bears : w.Bears (w.tree.nameOf identifier) := Setting.bears_of fun descending =>
    Tree.nameOf_eq_ok descending (descending.has_identifier hd)
  refine .lift bears fun found hname => ?_
  refine .lift (fun e he => by cases (Tree.range_eq_ok hn).symm.trans he) fun range hrange => ?_
  cases (Tree.range_eq_ok hn).symm.trans hrange
  rw [← Tree.nameAt_eq hname]
  dsimp only
  split
  · rename_i empty
    refine (binds_complain hn _ _).bind ?_
    rintro _ _ - - ⟨d, about, rfl⟩
    refine binds_create.bind ?_
    rintro _ _ - - ⟨rfl, rfl⟩
    exact .pure trivial ⟨by simp [isNamed, empty], ⟨found, hname⟩,
      .nameless empty (by simp [lack?, hn, about, Except.toOption])⟩
  · rename_i filled
    have named := Bool.eq_false_iff.2 filled
    have hnamed : true = isNamed w.tree identifier := by simp [isNamed, named]
    refine binds_create.bind ?_
    rintro _ _ - - ⟨rfl, rfl⟩
    cases htable : tableOf kind with
    | none =>
      exact .pure trivial ⟨by rw [hnamed], ⟨found, hname⟩, .unkept named (by simp [place?, htable])⟩
    | some table =>
      refine (binds_enterName hn named htable).bind ?_
      intro _ b' _ _ makes
      exact .pure trivial ⟨by rw [hnamed], ⟨found, hname⟩, makes⟩

/-- The new symbol of a declaration is free to change. -/
theorem binds_declare (kept : w.Keeps b) (hd : w.tree.declaration? node = some (kind, identifier))
    (top : kind = .script ↔ parent = none) (known : ∀ p, parent = some p → b.symbols.owns p) :
    Binds (w.conduct (· = b.symbols.next)) b
      (declare w.tree kind node identifier parent (tableOf kind)) fun made b' =>
        made = (b.symbols.next, isNamed w.tree identifier) ∧
          (∃ name, w.tree.nameOf identifier = .ok name) ∧
          Makes w.tree kind node (w.tree.nameAt identifier) parent b b' := by
  refine (makes_declare hd).under ?_ ?_ fun _ tolerated => tolerated
  · rintro _ b' ⟨-, -, makes⟩ -
    exact makes.adds
  · rintro _ b' ⟨-, -, makes⟩ -
    exact ⟨makes.sound kept.sound hd top known, w.steps.makes kept.sound kept.invariant hd makes⟩

/-- A symbol that is free to change may get members, parameters and imports that are there. -/
theorem binds_change {free : SymbolId → Prop} {f : Symbol → Symbol} (kept : w.Keeps b)
    (changed : free id) (writes : Writes w.tree b.symbols f) :
    Binds (w.conduct free) b (change id f) fun _ b' => Declares w.tree b [] b' ∧
      ∀ symbol, b.symbols.get? id = some symbol → b'.symbols.get? id = some (f symbol) := by
  refine .write (g := fun symbols => symbols.update id f) ?_ ?_ ⟨⟨by simp, fun _ => ?_⟩, ?_⟩
  · refine (grows_update changed fun symbol _ => writes.retains symbol).adds ?_
    intro other symbol some fixed none
    have ne : other ≠ id := by
      rintro rfl
      exact fixed changed
    rw [SymbolTable.get?_update, if_neg ne, none] at some
    cases some
  · exact ⟨kept.sound.writes writes, w.steps.change id kept.invariant writes.retains⟩
  · rw [List.append_nil]
    exact nodes_update fun symbol _ => writes.retains symbol
  · intro symbol hs
    simp [SymbolTable.get?_update, hs]

theorem binds_register {free : SymbolId → Prop} {symbol : Symbol} (kept : w.Keeps b)
    (hs : b.symbols.get? id = some symbol) (hkind : symbol.kind = .script)
    (hname : symbol.name = name) :
    Binds (w.conduct free) b
      (modify fun b => { b with symbols := b.symbols.registerScript name id }) fun _ b' =>
        b' = { b with symbols := b.symbols.registerScript name id } := by
  refine .write (g := fun symbols => symbols.registerScript name id) ?_ ?_ rfl
  · refine (grows_register name id).adds fun other symbol some _ none => ?_
    rw [get?_registerScript, none] at some
    cases some
  · exact ⟨kept.sound.register hs hkind hname, w.steps.register name id kept.invariant⟩

end Binding

end PapyrusAnalysis
