import PapyrusAnalysis.Proofs.Tree.Shape

/-!
# What lies around a node

Nodes may name any numbers as their parts: of nodes that are not there, that come later, or that are
parts of other nodes already. A node still points back to one node only, the last of those that come
after it and have it among their parts. So the way from a node outwards leads to larger numbers, and
it ends.

## Main definitions

* `Tree.Claims`: a node comes after another one and has it among its parts.
* `Tree.outward`: the nodes around a node.
* `Tree.Innermost`: the innermost node around another one whose form satisfies a condition.
* `Tree.WayOut`: the way from a node to one without a parent.

## Main statements

* `Tree.Grown.lastClaim`: a node points back to the last of the nodes that claim it.
* `Tree.Grown.points_outwards`: what the parents in a tree are, and where they lead.
-/

namespace PapyrusAnalysis

namespace Tree

variable {t : Tree} {id child p a : NodeId} {node : Node} {form : Form} {range : Range}

/-! ## What a step keeps -/

/-- An addition changes nothing about the nodes from before but their parents. -/
theorem map_node?_add {α : Type} {f : Node → α}
    (kept : ∀ node p, f { node with parent := p } = f node) (t : Tree) (form : Form)
    (range : Range) (id : NodeId) :
    ((t.add form range).node? id).map f =
      if id.index = t.size then some (f ⟨form, range, none, none⟩) else (t.node? id).map f := by
  rw [node?_add]
  split
  · rfl
  · cases t.node? id with
    | none => rfl
    | some node => by_cases part : id ∈ form.children <;> simp [part, kept]

/-- A limit on names changes nothing else. -/
theorem map_node?_restrict {α : Type} {f : Node → α}
    (kept : ∀ node scope, f { node with scope := scope } = f node) (t : Tree) (other : NodeId)
    (scope : FlagSet MemberKind) (id : NodeId) :
    ((t.restrict other scope).node? id).map f = (t.node? id).map f := by
  rw [node?_restrict]
  cases t.node? id with
  | none => rfl
  | some node => by_cases same : other.index = id.index <;> simp [same, kept]

theorem formAt_add (t : Tree) (form : Form) (range : Range) (id : NodeId) :
    (t.add form range).formAt id = if id.index = t.size then some form else t.formAt id :=
  map_node?_add (fun _ _ => rfl) t form range id

theorem formAt_restrict (t : Tree) (other : NodeId) (scope : FlagSet MemberKind) (id : NodeId) :
    (t.restrict other scope).formAt id = t.formAt id :=
  map_node?_restrict (fun _ _ => rfl) t other scope id

theorem has_of_formAt (h : t.formAt id = some form) : t.Has id := by
  obtain ⟨node, hn, -⟩ := Option.map_eq_some_iff.1 h
  exact has_of_node? hn

/-! ## Parents -/

theorem parent_eq (has : t.Has id) : t.parent id = .ok (t.parentAt id) := by
  obtain ⟨node, hn⟩ := has.node?
  rw [parent_eq_ok hn, parentAt_eq hn]

/-- An added node becomes the parent of those of its parts that are there. -/
theorem parentAt_add (t : Tree) (form : Form) (range : Range) (id : NodeId) :
    (t.add form range).parentAt id =
      if id.index < t.size ∧ id ∈ form.children then some t.nextId else t.parentAt id := by
  rw [parentAt, parentAt, node?_add]
  cases hn : t.node? id with
  | none =>
    have outside : ¬ id.index < t.size := not_has_iff.2 hn
    by_cases last : id.index = t.size <;> simp [last, outside]
  | some node =>
    have inside : id.index < t.size := has_of_node? hn
    by_cases part : id ∈ form.children <;> simp [part, inside, Nat.ne_of_lt inside]

theorem parentAt_restrict (t : Tree) (other : NodeId) (scope : FlagSet MemberKind) (id : NodeId) :
    (t.restrict other scope).parentAt id = t.parentAt id := by
  rw [parentAt, parentAt, node?_restrict]
  cases t.node? id with
  | none => rfl
  | some node => by_cases same : other.index = id.index <;> simp [same]

/-- A node comes after another one and has it among its parts. -/
def Claims (t : Tree) (p id : NodeId) : Prop :=
  id.index < p.index ∧ ∃ form, t.formAt p = some form ∧ id ∈ form.children

/-- An added node claims those of its parts that are there, and the others keep their claims. -/
theorem claims_add : (t.add form range).Claims p id ↔
    (p = ⟨t.size⟩ ∧ id.index < t.size ∧ id ∈ form.children) ∨ t.Claims p id := by
  rw [Claims, Claims, formAt_add]
  by_cases last : p.index = t.size
  · have added : p = ⟨t.size⟩ := by rw [← last]
    have nothing : ∀ form, t.formAt p ≠ some form := fun form h => by
      have : p.index < t.size := has_of_formAt h
      omega
    simp_all
  · have other : p ≠ ⟨t.size⟩ := fun e => last (by rw [e])
    simp [last, other]

theorem claims_restrict {other : NodeId} {scope : FlagSet MemberKind} :
    (t.restrict other scope).Claims p id ↔ t.Claims p id := by
  rw [Claims, Claims, formAt_restrict]

theorem Claims.has (h : t.Claims p id) : t.Has p := by
  obtain ⟨-, form, hform, -⟩ := h
  exact has_of_formAt hform

/-- The last of the nodes that claim a node, if there are any. -/
def LastClaim (t : Tree) (id : NodeId) : Option NodeId → Prop
  | none => ∀ p, ¬ t.Claims p id
  | some p => t.Claims p id ∧ ∀ q, t.Claims q id → q.index ≤ p.index

theorem LastClaim.congr {u : Tree} {parent : Option NodeId}
    (same : ∀ p, u.Claims p id ↔ t.Claims p id) (h : t.LastClaim id parent) :
    u.LastClaim id parent := by
  cases parent <;> simpa [LastClaim, same] using h

/-- A node points back to the last of the nodes that claim it. -/
theorem Grown.lastClaim (grown : t.Grown) (id : NodeId) : t.LastClaim id (t.parentAt id) := by
  induction grown with
  | empty =>
    rintro p ⟨-, form, hform, -⟩
    simp [formAt, node?, Tree.empty] at hform
  | @add t form range room _ ih =>
    rw [parentAt_add, nextId_eq room]
    split
    · rename_i part
      refine ⟨claims_add.2 (.inl ⟨rfl, part⟩), fun q hq => ?_⟩
      have : q.index < (t.add form range).size := hq.has
      rw [size_add] at this
      exact Nat.le_of_lt_succ this
    · rename_i apart
      exact ih.congr fun p => claims_add.trans (or_iff_right fun added => apart added.2)
  | restrict other scope _ ih =>
    rw [parentAt_restrict]
    exact ih.congr fun p => claims_restrict

/-- A node points back to a later node that has it among its parts. -/
theorem Grown.parent (grown : t.Grown) (h : t.node? id = some node) (hp : node.parent = some p) :
    id.index < p.index ∧ ∃ above, t.node? p = some above ∧ id ∈ above.form.children := by
  have last := grown.lastClaim id
  rw [parentAt_eq h, hp] at last
  obtain ⟨⟨before, form, hform, part⟩, -⟩ := last
  obtain ⟨above, ha, rfl⟩ := Option.map_eq_some_iff.1 hform
  exact ⟨before, above, ha, part⟩

/-- A node that is a part of another one points back to a node. -/
theorem Grown.linked (grown : t.Grown) (descending : t.Descending) {above : Node}
    (hp : t.node? p = some above) (hc : child ∈ above.form.children)
    (h : t.node? child = some node) : ∃ q, node.parent = some q := by
  have claims : t.Claims p child := ⟨descending p above hp child hc, _, formAt_eq hp, hc⟩
  have last := grown.lastClaim child
  rw [parentAt_eq h] at last
  cases parent : node.parent with
  | none =>
    rw [parent] at last
    exact absurd claims (last p)
  | some q => exact ⟨q, rfl⟩

/-! ## The nodes around a node -/

theorem climb_stable (grown : t.Grown) {fuel fuel' : Nat} (h : t.size ≤ p.index + fuel)
    (h' : t.size ≤ p.index + fuel') (has : t.Has p) :
    t.climb fuel (some p) = t.climb fuel' (some p) := by
  induction fuel generalizing fuel' p with
  | zero => exact absurd has (Nat.not_lt.2 h)
  | succ fuel ih =>
    cases fuel' with
    | zero => exact absurd has (Nat.not_lt.2 h')
    | succ fuel' =>
      obtain ⟨n, hn⟩ := has.node?
      rw [climb, climb, hn, Option.bind_some]
      cases hq : n.parent with
      | none => rw [climb_none, climb_none]
      | some q =>
        obtain ⟨lt, above, ha, -⟩ := grown.parent hn hq
        exact congrArg _ (ih (by omega) (by omega) (has_of_node? ha))

/-- The nodes around a node, from the inside out. -/
def outward (t : Tree) (id : NodeId) : List NodeId := t.climb t.size (t.parentAt id)

theorem outward_of_none (h : t.parentAt id = none) : t.outward id = [] := by
  rw [outward, h, climb_none]

theorem outward_of_parent (grown : t.Grown) (h : t.parentAt id = some p) :
    t.outward id = p :: t.outward p := by
  obtain ⟨n, hn, hp⟩ := Option.bind_eq_some_iff.1 h
  obtain ⟨lt, above, ha, -⟩ := grown.parent hn hp
  have has := has_of_node? ha
  obtain ⟨size, hsize⟩ : ∃ k, t.size = k + 1 := ⟨t.size - 1, by unfold Has at has; omega⟩
  have step : t.climb (size + 1) (some p) = p :: t.climb size (t.parentAt p) := rfl
  rw [outward, h, hsize, step, outward, hsize]
  cases hq : t.parentAt p with
  | none => rw [climb_none, climb_none]
  | some q =>
    obtain ⟨m, hm, hmq⟩ := Option.bind_eq_some_iff.1 hq
    obtain ⟨lt', _, ha', -⟩ := grown.parent hm hmq
    exact congrArg _ (climb_stable grown (by omega) (by omega) (has_of_node? ha'))

theorem lineage_eq (h : t.formAt id = some form) : t.lineage id = .ok (id :: t.outward id) := by
  obtain ⟨n, hn, -⟩ := Option.map_eq_some_iff.1 h
  rw [lineage_eq_ok hn, outward, parentAt_eq hn]

theorem ancestors_eq (h : t.formAt id = some form) : t.ancestors id = .ok (t.outward id) := by
  obtain ⟨n, hn, -⟩ := Option.map_eq_some_iff.1 h
  rw [ancestors_eq_ok hn, outward, parentAt_eq hn]

theorem Grown.has_of_parentAt (grown : t.Grown) (h : t.parentAt id = some p) :
    t.Has id ∧ t.Has p ∧ id.index < p.index := by
  obtain ⟨node, hn, hp⟩ := Option.bind_eq_some_iff.1 h
  obtain ⟨before, above, ha, -⟩ := grown.parent hn hp
  exact ⟨has_of_node? hn, has_of_node? ha, before⟩

/-- Reasoning from the nodes around a node to the node. -/
theorem Grown.inward (grown : t.Grown) {motive : NodeId → Prop}
    (step : ∀ id, (∀ p, t.parentAt id = some p → motive p) → motive id) (id : NodeId) :
    motive id := by
  by_cases has : t.Has id
  · induction h : t.size - id.index using Nat.strongRecOn generalizing id with
    | ind n ih =>
      refine step id fun p hp => ?_
      obtain ⟨-, hasP, before⟩ := grown.has_of_parentAt hp
      have size : p.index < t.size := hasP
      exact ih (t.size - p.index) (by omega) p hasP rfl
  · refine step id fun p hp => ?_
    exact absurd (grown.has_of_parentAt hp).1 has

/-- The innermost node around another one whose form satisfies a condition. -/
inductive Innermost (t : Tree) (wanted : Form → Bool) : NodeId → NodeId → Prop where
  | parent {id a : NodeId} {form : Form} (above : t.parentAt id = some a)
      (hform : t.formAt a = some form) (holds : wanted form = true) : Innermost t wanted id a
  | outer {id a b : NodeId} {form : Form} (above : t.parentAt id = some a)
      (hform : t.formAt a = some form) (fails : wanted form = false)
      (rest : Innermost t wanted a b) : Innermost t wanted id b

/-- The innermost node is the first one on the way out. -/
theorem Grown.innermost_iff (grown : t.Grown) {wanted : Form → Bool} :
    t.Innermost wanted id a ↔
      (t.outward id).find? (fun x => (t.node? x).any (wanted ·.form)) = some a := by
  have any_eq {x : NodeId} {form : Form} (hform : t.formAt x = some form) :
      (t.node? x).any (wanted ·.form) = wanted form := by
    obtain ⟨n, hn, rfl⟩ := Option.map_eq_some_iff.1 hform
    rw [hn]
    rfl
  constructor
  · intro h
    induction h with
    | parent above hform holds =>
      rw [outward_of_parent grown above, List.find?_cons_of_pos (by rw [any_eq hform, holds])]
    | outer above hform fails _ ih =>
      rw [outward_of_parent grown above, List.find?_cons_of_neg (by simp [any_eq hform, fails]),
        ih]
  · intro h
    induction id using grown.inward with
    | step id ih =>
      cases above : t.parentAt id with
      | none => simp [outward_of_none above] at h
      | some b =>
        obtain ⟨n, hn⟩ := (grown.has_of_parentAt above).2.1.node?
        have hform := formAt_eq hn
        rw [outward_of_parent grown above, List.find?_cons, any_eq hform] at h
        cases holds : wanted n.form with
        | true =>
          rw [holds] at h
          cases h
          exact .parent above hform holds
        | false =>
          rw [holds] at h
          exact .outer above hform holds (ih b above h)

/-! ## The way out -/

/-- The nodes from a node outwards, up to one that has no parent. -/
inductive WayOut (t : Tree) : NodeId → List NodeId → Prop where
  | top {id : NodeId} (h : t.parent id = .ok none) : WayOut t id [id]
  | up {id p : NodeId} {way : List NodeId} (h : t.parent id = .ok (some p))
      (rest : WayOut t p way) : WayOut t id (id :: way)

theorem Grown.wayOut (grown : t.Grown) (has : t.Has id) : t.WayOut id (id :: t.outward id) := by
  induction id using grown.inward with
  | step id ih =>
    have read := parent_eq has
    cases above : t.parentAt id with
    | none =>
      rw [outward_of_none above]
      exact .top (read.trans (congrArg _ above))
    | some p =>
      rw [outward_of_parent grown above]
      exact .up (read.trans (congrArg _ above)) (ih p above (grown.has_of_parentAt above).2.1)

theorem parentAt_of_parent {parent : Option NodeId} (h : t.parent id = .ok parent) :
    t.Has id ∧ t.parentAt id = parent := by
  by_cases has : t.Has id
  · exact ⟨has, Except.ok.inj ((parent_eq has).symm.trans h)⟩
  · rw [Tree.parent, node_eq_error has] at h
    cases h

theorem WayOut.length_le (grown : t.Grown) {way : List NodeId} (h : t.WayOut id way) :
    way.length ≤ t.size - id.index := by
  induction h with
  | top h =>
    have : _ < t.size := (parentAt_of_parent h).1
    simp only [List.length_singleton]
    omega
  | @up id p way h _ ih =>
    obtain ⟨-, hasP, before⟩ := grown.has_of_parentAt (parentAt_of_parent h).2
    have : p.index < t.size := hasP
    simp only [List.length_cons]
    omega

theorem WayOut.le_of_mem (grown : t.Grown) {way : List NodeId} (h : t.WayOut id way) {a : NodeId}
    (ha : a ∈ way) : id.index ≤ a.index := by
  induction h with
  | top h => simp_all
  | up h _ ih =>
    have before := (grown.has_of_parentAt (parentAt_of_parent h).2).2.2
    grind

theorem WayOut.rising (grown : t.Grown) {way : List NodeId} (h : t.WayOut id way) :
    way.Pairwise fun a b => a.index < b.index := by
  induction h with
  | top h => simp
  | up h rest ih =>
    have before := (grown.has_of_parentAt (parentAt_of_parent h).2).2.2
    refine List.pairwise_cons.2 ⟨fun a ha => ?_, ih⟩
    have := rest.le_of_mem grown ha
    omega

/-- A node of a tree points back to the last node that claims it, and the way out leads from there
to the top. -/
theorem Grown.points_outwards (grown : t.Grown) (has : t.Has id) :
    (∃ parent, t.parent id = .ok parent ∧ t.LastClaim id parent ∧
      ∀ p ∈ parent, id.index < p.index ∧ p.index < t.size) ∧
    ∃ way, t.WayOut id way ∧ way.length ≤ t.size - id.index ∧
      way.Pairwise (fun a b => a.index < b.index) ∧
      t.lineage id = .ok way ∧ t.ancestors id = .ok way.tail ∧
      t.scriptOf id = .ok (way.find? (t.isWanted Form.isScript)) ∧
      ∀ a, t.isWithin id a = .ok (decide (a ∈ way)) := by
  have read := parent_eq has
  refine ⟨⟨_, read, grown.lastClaim id, fun p hp => ?_⟩, _, grown.wayOut has, ?_⟩
  · obtain ⟨-, inside, before⟩ := grown.has_of_parentAt hp
    exact ⟨before, inside⟩
  · have way := grown.wayOut has
    obtain ⟨node, hn⟩ := has.node?
    have lineage := lineage_eq (formAt_eq hn)
    refine ⟨way.length_le grown, way.rising grown, lineage, ancestors_eq (formAt_eq hn), ?_, ?_⟩
    · rw [scriptOf, lineage]
      rfl
    · intro a
      simp [isWithin, lineage, bind, Except.bind, pure, Except.pure]

/-- A tree with a node that is a part of two others and twice of one of them, a node that is a part
of itself, and parts that are missing or come later. -/
def tangled : Tree :=
  .ofForms [.identifier "x", .reference ⟨0⟩, .unary .not ⟨2⟩, .binary ⟨0⟩ .add ⟨0⟩,
    .cast ⟨9⟩ ⟨5⟩, .memberAccess ⟨3⟩ ⟨2⟩]

theorem tangled_points_outwards : tangled.Grown ∧ tangled.Has ⟨0⟩ ∧
    tangled.ids.map tangled.parentAt =
      [some ⟨3⟩, none, some ⟨5⟩, some ⟨5⟩, none, none] ∧
    tangled.lineage ⟨0⟩ = .ok [⟨0⟩, ⟨3⟩, ⟨5⟩] ∧
    ∃ way, tangled.WayOut ⟨0⟩ way ∧ way.length ≤ 6 := by
  have grown : tangled.Grown := grown_ofForms (by decide)
  have has : tangled.Has ⟨0⟩ := by decide
  obtain ⟨-, way, out, short, -⟩ := grown.points_outwards has
  exact ⟨grown, has, by decide, by decide, way, out, short⟩

end Tree

end PapyrusAnalysis
