import Mathlib.Data.List.Nodup
import PapyrusAnalysis.Proofs.Tree.Descent

/-!
# Walks

A walk keeps a stack of the nodes that wait for their visit. It comes to the same as a recursion: a
node is visited and then, unless the visitor says otherwise, each of its parts is walked from left
to right. Where no node is a part twice, what is met on the way through a node is what lies within
it, and none of it is met twice.

## Main definitions

* `Tree.Below`: a list without repetition of nodes within some nodes.
* `Tree.visitThen`: the recursion that a walk comes to.

## Main statements

* `Tree.WellFormed.below_preorder`, `Tree.WellFormed.mem_preorder`: what is met on the way through a
  node.
* `Tree.Descending.walk_recursive`: which visits a walk makes.
-/

namespace PapyrusAnalysis

namespace Tree

variable {t : Tree} {id other root : NodeId} {node : Node} {parts others list rest : List NodeId}

/-! ## On the way through a node -/

/-- The nodes of a list lie within some nodes, and none is listed twice. -/
structure Below (t : Tree) (parts list : List NodeId) : Prop where
  within : ∀ x ∈ list, ∃ part ∈ parts, t.Within x part
  nodup : list.Nodup

theorem Below.nil : t.Below parts [] := ⟨by simp, .nil⟩

theorem Below.single (has : t.Has id) : t.Below [id] [id] :=
  ⟨by simpa using Within.refl has, by simp⟩

theorem Below.sublist (h : t.Below parts list) (sub : rest.Sublist list) : t.Below parts rest :=
  ⟨fun x hx => h.within x (sub.subset hx), h.nodup.sublist sub⟩

theorem Below.mono (h : t.Below parts list) (sub : ∀ part ∈ parts, part ∈ others) :
    t.Below others list := by
  refine ⟨fun x hx => ?_, h.nodup⟩
  obtain ⟨part, hp, within⟩ := h.within x hx
  exact ⟨part, sub part hp, within⟩

section Parts

variable (wf : t.WellFormed) (hn : t.node? id = some node)
include wf hn

/-- What is within the parts of a node is within the node. -/
theorem Below.up (h : t.Below parts list) (sub : ∀ part ∈ parts, part ∈ node.form.children) :
    t.Below [id] list := by
  refine ⟨fun x hx => ⟨id, by simp, ?_⟩, h.nodup⟩
  obtain ⟨part, hp, within⟩ := h.within x hx
  exact wf.within_of_part hn (sub part hp) within

/-- A node is none of those within its parts. -/
theorem Below.cons (h : t.Below parts list) (sub : ∀ part ∈ parts, part ∈ node.form.children) :
    t.Below [id] (id :: list) := by
  have up := h.up wf hn sub
  refine ⟨fun x hx => ?_, List.nodup_cons.2 ⟨fun hid => ?_, h.nodup⟩⟩
  · rcases List.mem_cons.1 hx with rfl | hx
    · exact ⟨x, by simp, .refl (has_of_node? hn)⟩
    · exact up.within x hx
  · obtain ⟨part, hp, within⟩ := h.within id hid
    exact wf.not_within_part hn (sub part hp) within

theorem Below.append (h : t.Below parts list) (h' : t.Below others rest)
    (sub : ∀ part ∈ parts ++ others, part ∈ node.form.children) (apart : parts.Disjoint others) :
    t.Below (parts ++ others) (list ++ rest) := by
  refine ⟨fun x hx => ?_, List.nodup_append.2 ⟨h.nodup, h'.nodup, ?_⟩⟩
  · rcases List.mem_append.1 hx with hx | hx
    · exact (h.mono fun part hp => List.mem_append_left _ hp).within x hx
    · exact (h'.mono fun part hp => List.mem_append_right _ hp).within x hx
  · rintro x hx _ hx' rfl
    obtain ⟨part, hp, within⟩ := h.within x hx
    obtain ⟨part', hp', within'⟩ := h'.within x hx'
    have same := wf.parts_disjoint hn (sub part (by simp [hp])) (sub part' (by simp [hp'])) within
      within'
    exact apart hp (same ▸ hp')

/-- Lists within different parts of a node have nothing in common. -/
theorem Below.flatMap {f : NodeId → List NodeId} (nodup : parts.Nodup)
    (sub : ∀ part ∈ parts, part ∈ node.form.children)
    (each : ∀ part ∈ parts, t.Below [part] (f part)) : t.Below parts (parts.flatMap f) := by
  induction parts with
  | nil => exact .nil
  | cons part parts ih =>
    rw [List.nodup_cons] at nodup
    have rest := ih nodup.2 (fun p hp => sub p (by simp [hp])) fun p hp => each p (by simp [hp])
    exact (each part (by simp)).append wf hn rest (by simpa using sub) (by simpa using nodup.1)

end Parts

theorem WellFormed.below_preorder (wf : t.WellFormed) (depth : Nat) (has : t.Has id) :
    t.Below [id] (t.preorder depth id) := by
  induction depth generalizing id with
  | zero => exact .nil
  | succ depth ih =>
    obtain ⟨node, hn⟩ := has.node?
    rw [preorder_succ hn]
    exact (Below.flatMap wf hn (wf.once.nodup hn) (fun _ hp => hp)
      fun part hp => ih (wf.descending.has hn hp)).cons wf hn fun _ hp => hp

theorem WellFormed.within_of_mem_preorder (wf : t.WellFormed) {depth : Nat} (has : t.Has id)
    (h : other ∈ t.preorder depth id) : t.Within other id := by
  obtain ⟨part, hp, within⟩ := (wf.below_preorder depth has).within other h
  exact List.mem_singleton.1 hp ▸ within

/-- Whatever is within a node is met on the way through it. -/
theorem WellFormed.mem_preorder (wf : t.WellFormed) {depth : Nat} (enough : id.index < depth)
    (h : t.Within other id) (has : t.Has id) : other ∈ t.preorder depth id := by
  induction depth generalizing id with
  | zero => omega
  | succ depth ih =>
    obtain ⟨node, hn⟩ := has.node?
    rw [preorder_succ hn, List.mem_cons, List.mem_flatMap]
    by_cases same : other = id
    · exact .inl same
    · obtain ⟨child, hc, within⟩ := wf.exists_part hn h same
      have := wf.descending id node hn child hc
      exact .inr ⟨child, hc, ih (by omega) within (wf.descending.has hn hc)⟩

/-! ## One step of a walk -/

section Walks

variable {σ : Type} {visit : NodeId → StateT σ Outcome Step}

/-- Visits a node and, unless the visitor leaves out what is below it, goes on with `below` at each
of its parts from left to right. -/
def visitThen (t : Tree) (visit : NodeId → StateT σ Outcome Step)
    (below : NodeId → StateT σ Outcome Unit) (id : NodeId) : StateT σ Outcome Unit := do
  match ← visit id with
  | .skip => pure ()
  | .descend => (← t.form id).children.forM below

/-- What happens at a node depends on its parts only. -/
theorem visitThen_congr {below other : NodeId → StateT σ Outcome Unit}
    (h : ∀ node, t.node? id = some node → ∀ child ∈ node.form.children, below child = other child) :
    t.visitThen visit below id = t.visitThen visit other id := by
  unfold visitThen
  congr 1
  funext step
  cases step with
  | skip => rfl
  | descend =>
    by_cases has : t.Has id
    · obtain ⟨node, hn⟩ := has.node?
      rw [form_eq_ok hn]
      exact forM_congr (h node hn)
    · rw [form_eq_error has]
      rfl

theorem walkWithin_succ (t : Tree) (visit : NodeId → StateT σ Outcome Step) (depth : Nat)
    (id : NodeId) :
    t.walkWithin visit (depth + 1) id = t.visitThen visit (t.walkWithin visit depth) id :=
  rfl

theorem walkStack_nil (fuel : Nat) : t.walkStack visit fuel [] = pure () := by
  cases fuel <;> rfl

/-- A node that is not in the tree is visited, and then it has no parts. -/
theorem walkStack_unknown (has : ¬ t.Has root) {fuel : Nat} (enough : 0 < fuel)
    (below : NodeId → StateT σ Outcome Unit) :
    t.walkStack visit fuel [root] = t.visitThen visit below root := by
  obtain ⟨fuel, rfl⟩ := Nat.exists_eq_add_of_lt enough
  rw [Nat.zero_add, walkStack, visitThen]
  congr 1
  funext step
  cases step with
  | skip => exact walkStack_nil fuel
  | descend =>
    rw [form_eq_error has]
    rfl

/-- A walk is a visit followed by the walks from the parts. -/
theorem walk_eq_visitThen (descending : t.Descending) (root : NodeId) :
    t.walk root visit = t.visitThen visit (fun child => t.walk child visit) root := by
  by_cases has : t.Has root
  · have deep : root.index < root.index + 1 := Nat.lt_succ_self _
    calc t.walk root visit
        = t.walkWithin visit (root.index + 1) root := by
          rw [walk_eq descending has, walkWithin_eq descending has has deep]
      _ = t.visitThen visit (t.walkWithin visit root.index) root := walkWithin_succ ..
      _ = t.visitThen visit (fun child => t.walk child visit) root := by
          refine visitThen_congr fun node hn child hc => ?_
          have hasChild := descending.has hn hc
          rw [walk_eq descending hasChild,
            walkWithin_eq descending hasChild (descending root node hn child hc) hasChild]
  · exact walkStack_unknown has (t.visitBound_pos _) _

/-- There is only one way to visit every node and then its parts. -/
theorem eq_walk (descending : t.Descending) {walk : NodeId → StateT σ Outcome Unit}
    (recursive : ∀ id, walk id = t.visitThen visit walk id) (root : NodeId) :
    walk root = t.walk root visit := by
  induction h : root.index using Nat.strongRecOn generalizing root with
  | ind n ih =>
    rw [recursive, walk_eq_visitThen descending]
    refine visitThen_congr fun node hn child hc => ?_
    have before := descending root node hn child hc
    exact ih child.index (h ▸ before) child rfl

/-- The stack becomes empty before the limit on the visits is reached. -/
theorem walkStack_eq_walk (descending : t.Descending) (root : NodeId) {fuel : Nat}
    (enough : t.visitLimit ≤ fuel) : t.walkStack visit fuel [root] = t.walk root visit := by
  have positive : 0 < t.visitLimit := t.visitBound_pos (t.size + 1)
  by_cases has : t.Has root
  · have small : t.visits [root] ≤ t.visitLimit := by
      have := t.visitBound_mono (Nat.succ_le_succ (Nat.le_of_lt has))
      simpa [visits, visitLimit] using this
    rw [walk_eq descending has,
      walkStack_eq_forM descending fuel [root] (by simpa using has) (Nat.le_trans small enough)]
    exact bind_pure _
  · rw [walkStack_unknown has (Nat.lt_of_lt_of_le positive enough) fun _ => pure (),
      walk, walkStack_unknown has positive fun _ => pure ()]

/-! ## How a walk ends -/

/-- A walk over the nodes of a tree may do anything, but meets the faults of its visits only. -/
def visiting (t : Tree) (visit : NodeId → StateT σ Outcome Step) : Conduct σ where
  keeps _ := True
  grows _ _ := True
  refl _ := trivial
  trans _ _ := trivial
  tolerates e := ∃ id s, t.Has id ∧ visit id s = .error e

theorem runs_visit (has : t.Has id) (s : σ) :
    Runs (t.visiting visit) s (visit id) fun _ _ => True := by
  cases run : visit id s with
  | ok r => exact .done run trivial trivial trivial
  | error e => exact .fault run ⟨id, s, has, run⟩

theorem runs_walk (descending : t.Descending) (has : t.Has root) (s : σ) :
    Runs (t.visiting visit) s (t.walk root visit) fun _ _ => True := by
  induction h : root.index using Nat.strongRecOn generalizing root s with
  | ind n ih =>
    obtain ⟨node, hn⟩ := has.node?
    rw [walk_eq_visitThen descending]
    refine .bind (runs_visit has s) fun step s' _ _ _ => ?_
    cases step with
    | skip => exact .pure trivial trivial
    | descend =>
      refine .lift (form_eq_ok hn) ?_
      refine (Runs.forM (fun _ => ([] : List Unit)) (fun _ => []) trivial ?_).imp
        fun _ _ _ _ _ => trivial
      intro child hc s'' _ _
      have below : child.index < n := h ▸ descending root node hn child hc
      exact (ih child.index below (descending.has hn hc) s'' rfl).imp fun _ _ _ _ _ => rfl

/-! ## Walks that leave nothing out -/

/-- A visitor that leaves nothing out. -/
def Descends (visit : NodeId → StateT σ Outcome Step) : Prop :=
  ∀ id s step s', visit id s = .ok (step, s') → step = .descend

theorem Descends.bind_eq (descends : Descends visit) (id : NodeId)
    (next : Step → StateT σ Outcome Unit) :
    visit id >>= next = discard (visit id) >>= fun _ => next .descend := by
  have dropped : discard (visit id) >>= (fun _ => next .descend) =
      visit id >>= fun _ => next .descend :=
    bind_map_left ..
  funext s
  rw [dropped]
  cases run : visit id s with
  | error e => rw [bind_error run, bind_error run]
  | ok r => rw [bind_ok run, bind_ok run, descends id s r.1 r.2 run]

theorem forM_flatMap {m : Type → Type} [Monad m] [LawfulMonad m] {f : NodeId → m Unit}
    {g : NodeId → List NodeId} (ids : List NodeId) :
    (ids.flatMap g).forM f = ids.forM fun id => (g id).forM f := by
  induction ids with
  | nil => rfl
  | cons id ids ih =>
    rw [List.flatMap_cons]
    refine List.forM_append.trans ?_
    exact congrArg (fun rest => (g id).forM f >>= fun _ => rest) ih

theorem Descends.walkWithin_eq (descends : Descends visit) (descending : t.Descending) (depth : Nat)
    (has : t.Has id) (enough : id.index < depth) :
    t.walkWithin visit depth id = (t.preorder depth id).forM fun x => discard (visit x) := by
  induction depth generalizing id with
  | zero => omega
  | succ depth ih =>
    obtain ⟨node, hn⟩ := has.node?
    have parts : node.form.children.forM (t.walkWithin visit depth) =
        (node.form.children.flatMap (t.preorder depth)).forM fun x => discard (visit x) := by
      rw [forM_flatMap]
      refine forM_congr fun child hc => ?_
      have := descending id node hn child hc
      exact ih (descending.has hn hc) (by omega)
    rw [walkWithin_succ, visitThen, descends.bind_eq, preorder_succ hn, form_eq_ok hn]
    exact congrArg (discard (visit id) >>= fun _ => ·) parts

end Walks

/-- A walk is the recursion that visits a node and then, unless the visitor leaves them out, walks
its parts: the only one there is, whatever the visitor does. It ends by itself, and meets no fault
but those of its visits. If no node is a part twice, a walk that leaves nothing out visits the nodes
within its root, each of them once. -/
theorem Descending.walk_recursive (descending : t.Descending) :
    (∀ {σ : Type} (visit : NodeId → StateT σ Outcome Step),
      (∀ walk : NodeId → StateT σ Outcome Unit,
        (∀ id, walk id = t.visitThen visit walk id) ↔ walk = fun root => t.walk root visit) ∧
      (∀ root fuel, t.visitLimit ≤ fuel → t.walkStack visit fuel [root] = t.walk root visit) ∧
      ∀ root s, t.Has root → (∃ s', t.walk root visit s = .ok ((), s')) ∨
        ∃ e id s', t.Has id ∧ visit id s' = .error e ∧ t.walk root visit s = .error e) ∧
    (t.Grown → t.UsesOnce → ∀ root, t.Has root → ∃ nodes : List NodeId, nodes.Nodup ∧
      (∀ id, id ∈ nodes ↔ t.isWithin id root = .ok true) ∧
      ∀ {σ : Type} (visit : NodeId → StateT σ Outcome Step), Descends visit →
        t.walk root visit = nodes.forM fun id => discard (visit id)) := by
  refine ⟨fun visit => ⟨fun walk => ⟨?_, ?_⟩, ?_, ?_⟩, fun grown once root has => ?_⟩
  · intro recursive
    funext root
    exact eq_walk descending recursive root
  · rintro rfl root
    exact walk_eq_visitThen descending root
  · intro root fuel enough
    exact walkStack_eq_walk descending root enough
  · intro root s has
    have runs : Runs (t.visiting visit) s (t.walk root visit) fun _ _ => True :=
      runs_walk descending has s
    cases runs with
    | done run _ _ _ => exact .inl ⟨_, run⟩
    | fault run tolerated =>
      obtain ⟨id, s', inside, visited⟩ := tolerated
      exact .inr ⟨_, id, s', inside, visited, run⟩
  · have wf : t.WellFormed := ⟨grown, descending, once⟩
    refine ⟨t.preorder t.size root, (wf.below_preorder _ has).nodup, fun id => ⟨?_, ?_⟩, ?_⟩
    · exact wf.within_of_mem_preorder has
    · intro within
      exact wf.mem_preorder has within has
    · intro σ visit descends
      rw [walk_eq descending has]
      exact descends.walkWithin_eq descending t.size has has

/-- Notes every node that is visited, and leaves out what is below one of them. -/
def noteBut (left : Option NodeId) (id : NodeId) : StateT (List NodeId) Outcome Step := do
  modify (· ++ [id])
  return if left = some id then .skip else .descend

/-- The phrase `x && !y`. -/
def negated : Tree :=
  .ofForms [.identifier "x", .reference ⟨0⟩, .identifier "y", .reference ⟨2⟩, .unary .not ⟨3⟩,
    .binary ⟨1⟩ .and ⟨4⟩]

theorem negated_walked : negated.Descending ∧ negated.Grown ∧ negated.UsesOnce ∧
    negated.Has ⟨5⟩ ∧ Descends (noteBut none) ∧
    negated.walk ⟨5⟩ (noteBut (some ⟨4⟩)) [] = .ok ((), [⟨5⟩, ⟨1⟩, ⟨0⟩, ⟨4⟩]) ∧
    negated.walk ⟨5⟩ (noteBut (some ⟨4⟩)) = negated.visitThen (noteBut (some ⟨4⟩))
      (fun child => negated.walk child (noteBut (some ⟨4⟩))) ⟨5⟩ ∧
    ∃ nodes : List NodeId, nodes.Nodup ∧
      (∀ id, id ∈ nodes ↔ negated.isWithin id ⟨5⟩ = .ok true) ∧
      negated.walk ⟨5⟩ (noteBut none) = nodes.forM fun id => discard (noteBut none id) := by
  have descending : negated.Descending := by decide
  have grown : negated.Grown := grown_ofForms (by decide)
  have once : negated.UsesOnce := by decide
  have has : negated.Has ⟨5⟩ := by decide
  have descends : Descends (noteBut none) := by
    rintro id s step s' run
    cases run
    rfl
  obtain ⟨walks, within⟩ := descending.walk_recursive
  obtain ⟨nodes, nodup, members, visited⟩ := within grown once ⟨5⟩ has
  have recursive := ((walks (noteBut (some ⟨4⟩))).1 _).2 rfl
  exact ⟨descending, grown, once, has, descends, rfl, recursive ⟨5⟩, nodes, nodup, members,
    visited _ descends⟩

end Tree

end PapyrusAnalysis
