import Mathlib.Data.List.Basic
import PapyrusAnalysis.Proofs.Run
import PapyrusAnalysis.Tree.Walk

/-!
# The shape of trees

A tree comes about by adding nodes and limiting names. This alone does not promise that the parts of
a node were there before it: a tree in which they were is called `Descending`. In such a tree every
name is found and every walk ends.

## Main definitions

* `Tree.Grown`: the trees that can come about.
* `Tree.Descending`: every part of a node was added before it.
* `Tree.Shielded`: no script or struct lies inside a member access.
* `Tree.UsesOnce`: no node is a part twice.
-/

namespace PapyrusAnalysis

namespace Form

def isStruct : Form → Bool
  | struct .. => true
  | _ => false

/-- Whether a phrase names a member of what another phrase stands for. -/
def isMemberAccess : Form → Bool
  | memberAccess .. => true
  | _ => false

end Form

namespace Tree

variable {t : Tree} {id child : NodeId} {node : Node}

/-- Whether a number belongs to a node of the tree. -/
def Has (t : Tree) (id : NodeId) : Prop := id.index < t.size

instance (t : Tree) (id : NodeId) : Decidable (t.Has id) := inferInstanceAs (Decidable (_ < _))

theorem has_of_node? (h : t.node? id = some node) : t.Has id :=
  (Array.getElem?_eq_some_iff.1 h).1

theorem Has.node? (h : t.Has id) : ∃ node, t.node? id = some node :=
  ⟨t.nodes[id.index], Array.getElem?_eq_getElem h⟩

theorem has_of_none : ∀ id : NodeId, none = some id → t.Has id := by
  intro id h
  cases h

theorem node_eq_ok (h : t.node? id = some node) : t.node id = .ok node := by
  simp [Tree.node, h]

theorem form_eq_ok (h : t.node? id = some node) : t.form id = .ok node.form := by
  rw [form, node_eq_ok h]
  rfl

theorem range_eq_ok (h : t.node? id = some node) : t.range id = .ok node.range := by
  rw [range, node_eq_ok h]
  rfl

theorem parent_eq_ok (h : t.node? id = some node) : t.parent id = .ok node.parent := by
  rw [parent, node_eq_ok h]
  rfl

theorem not_has_iff : ¬ t.Has id ↔ t.node? id = none := by
  simp [Has, node?, size]

theorem node_eq_error (h : ¬ t.Has id) : t.node id = .error (.unknownNode id.index) := by
  simp [Tree.node, not_has_iff.1 h]

theorem form_eq_error (h : ¬ t.Has id) : t.form id = .error (.unknownNode id.index) := by
  rw [form, node_eq_error h]
  rfl

/-- The phrase at a node. -/
def formAt (t : Tree) (id : NodeId) : Option Form := (t.node? id).map Node.form

theorem formAt_eq (h : t.node? id = some node) : t.formAt id = some node.form := by
  simp [formAt, h]

/-- The node that a node is a part of. -/
def parentAt (t : Tree) (id : NodeId) : Option NodeId := (t.node? id).bind Node.parent

theorem parentAt_eq (h : t.node? id = some node) : t.parentAt id = node.parent := by
  simp [parentAt, h]

/-! ## Trees that can come about -/

theorem nextId_eq (room : t.size < NodeId.limit) : t.nextId = ⟨t.size⟩ := by
  rw [nextId, Nat.mod_eq_of_lt room]

/-- A tree that comes about by adding nodes, as long as there are numbers for them, and limiting
names. -/
inductive Grown : Tree → Prop where
  | empty : Grown .empty
  | add {t : Tree} (form : Form) (range : Range) (room : t.size < NodeId.limit) :
      Grown t → Grown (t.add form range)
  | restrict {t : Tree} (id : NodeId) (scope : FlagSet MemberKind) :
      Grown t → Grown (t.restrict id scope)

/-- Linking changes the parents of the given nodes and nothing else. -/
theorem getElem?_link (p : NodeId) (children : List NodeId) (nodes : Array Node) (id : NodeId) :
    (link p children nodes)[id.index]? = nodes[id.index]?.map fun node =>
      if id ∈ children then { node with parent := some p } else node := by
  unfold link
  induction children generalizing nodes with
  | nil => simp
  | cons c children ih =>
    rw [List.foldl_cons, ih]
    by_cases hc : c = id
    · subst hc
      cases h : nodes[c.index]? <;> simp [Array.getElem?_modify, h]
    · have hne : c.index ≠ id.index := fun e => hc (by cases c; cases id; simp_all)
      simp [Array.getElem?_modify, hne, Ne.symm hc]

theorem size_link (p : NodeId) (children : List NodeId) (nodes : Array Node) :
    (link p children nodes).size = nodes.size := by
  unfold link
  induction children generalizing nodes with
  | nil => rfl
  | cons c children ih => rw [List.foldl_cons, ih, Array.size_modify]

@[simp] theorem size_add (t : Tree) (form : Form) (range : Range) :
    (t.add form range).size = t.size + 1 := by
  simp [add, size, size_link]

theorem has_nextId_add (t : Tree) (form : Form) (range : Range) :
    (t.add form range).Has t.nextId := by
  rw [Has, size_add]
  exact Nat.lt_succ_of_le (Nat.mod_le _ _)

@[simp] theorem size_restrict (t : Tree) (id : NodeId) (scope : FlagSet MemberKind) :
    (t.restrict id scope).size = t.size := by
  simp [restrict, size]

/-- The node that an addition puts last, and what becomes of the others. -/
theorem node?_add (t : Tree) (form : Form) (range : Range) (id : NodeId) :
    (t.add form range).node? id =
      if id.index = t.size then some ⟨form, range, none, none⟩
      else (t.node? id).map fun node =>
        if id ∈ form.children then { node with parent := some t.nextId } else node := by
  simp only [add, node?]
  rw [Array.getElem?_push, size_link]
  by_cases h : id.index = t.size
  · rw [if_pos h, if_pos (show id.index = t.nodes.size from h)]
  · rw [if_neg h, if_neg (show id.index ≠ t.nodes.size from h), getElem?_link]

theorem node?_restrict (t : Tree) (id other : NodeId) (scope : FlagSet MemberKind) :
    (t.restrict id scope).node? other = (t.node? other).map fun node =>
      if id.index = other.index then { node with scope := some scope } else node := by
  simp only [restrict, node?, Array.getElem?_modify]
  by_cases h : id.index = other.index <;> simp [h]

/-- The roots of a tree are its scripts. -/
theorem Grown.mem_roots (grown : t.Grown) :
    id ∈ t.roots ↔ ∃ node, t.node? id = some node ∧ node.form.isScript := by
  induction grown with
  | empty => simp [Tree.empty, node?]
  | @add t form range room _ ih =>
    rw [node?_add]
    by_cases h : id.index = t.size
    · have hid : id = t.nextId := by rw [nextId_eq room, ← h]
      have hnone : t.node? id = none := not_has_iff.1 (by simp [Has, h])
      have hroot : id ∉ t.roots := by simp [ih, hnone]
      rw [if_pos h]
      cases hs : form.isScript <;> simp [Tree.add, hs, hroot, hid.symm]
    · have hne : id ≠ t.nextId := fun e => h (by rw [e, nextId_eq room])
      rw [if_neg h]
      have hroots : id ∈ (t.add form range).roots ↔ id ∈ t.roots := by
        cases hs : form.isScript <;> simp [Tree.add, hs, hne]
      rw [hroots, ih]
      constructor
      · rintro ⟨node, hnode, hscript⟩
        refine ⟨_, by rw [hnode]; rfl, ?_⟩
        dsimp only
        split <;> exact hscript
      · rintro ⟨_, hnode, hscript⟩
        obtain ⟨old, hold, rfl⟩ := Option.map_eq_some_iff.1 hnode
        refine ⟨old, hold, ?_⟩
        split at hscript <;> exact hscript
  | @restrict t other scope _ ih =>
    rw [node?_restrict]
    change id ∈ t.roots ↔ _
    rw [ih]
    constructor
    · rintro ⟨node, hnode, hscript⟩
      refine ⟨_, by rw [hnode]; rfl, ?_⟩
      dsimp only
      split <;> exact hscript
    · rintro ⟨_, hnode, hscript⟩
      obtain ⟨old, hold, rfl⟩ := Option.map_eq_some_iff.1 hnode
      refine ⟨old, hold, ?_⟩
      split at hscript <;> exact hscript

/-! ## Trees whose parts come first -/

/-- Every part of a node was added before the node. -/
def Descending (t : Tree) : Prop :=
  ∀ id node, t.node? id = some node → ∀ child ∈ node.form.children, child.index < id.index

theorem Descending.has (h : t.Descending) (hn : t.node? id = some node)
    (hc : child ∈ node.form.children) : t.Has child :=
  Nat.lt_trans (h id node hn child hc) (has_of_node? hn)

/-- No script or struct has a member access among the nodes around it. -/
def Shielded (t : Tree) : Prop :=
  ∀ id node, t.node? id = some node → (node.form.isScript ∨ node.form.isStruct) →
    ∀ around, t.ancestors id = .ok around → ∀ a ∈ around, ∀ above, t.node? a = some above →
      ¬ above.form.isMemberAccess

/-- No node is a part twice, be it of one node or of two. -/
structure UsesOnce (t : Tree) : Prop where
  nodup : ∀ {id node}, t.node? id = some node → node.form.children.Nodup
  unique : ∀ {a b above other child}, t.node? a = some above → t.node? b = some other →
    child ∈ above.form.children → child ∈ other.form.children → a = b

/-- Scripts lie in no other node. -/
def ScriptsOnTop (t : Tree) : Prop :=
  ∀ id node, t.node? id = some node → node.form.isScript → node.parent = none

/-- Every range of the tree starts before it stops. -/
def Ordered (t : Tree) : Prop :=
  ∀ id node, t.node? id = some node → node.range.start ≤ node.range.stop

theorem climb_none (t : Tree) (fuel : Nat) : t.climb fuel none = [] := by
  cases fuel <;> rfl

theorem ancestors_eq_ok (h : t.node? id = some node) :
    t.ancestors id = .ok (t.climb t.size node.parent) := by
  rw [ancestors, parent_eq_ok h]
  rfl

theorem lineage_eq_ok (h : t.node? id = some node) :
    t.lineage id = .ok (id :: t.climb t.size node.parent) := by
  rw [lineage, ancestors_eq_ok h]
  rfl

theorem scriptOf_eq_ok (h : t.node? id = some node) :
    t.scriptOf id = .ok ((id :: t.climb t.size node.parent).find? fun a =>
      (t.node? a).any (·.form.isScript)) := by
  rw [scriptOf, lineage_eq_ok h]
  rfl

/-- A tree in which scripts lie in no node and no struct lies in a member access is shielded. -/
theorem ScriptsOnTop.shielded (top : t.ScriptsOnTop)
    (structs : ∀ id node, t.node? id = some node → node.form.isStruct →
      ∀ around, t.ancestors id = .ok around → ∀ a ∈ around, ∀ above, t.node? a = some above →
        ¬ above.form.isMemberAccess) : t.Shielded := by
  rintro id node hn (hs | hs) around hr a ha above habove
  · rw [ancestors_eq_ok hn, top id node hn hs, climb_none] at hr
    cases hr
    cases ha
  · exact structs id node hn hs around hr a ha above habove

/-! ## Deciding the shape of a tree -/

theorem forall_node?_iff {P : NodeId → Node → Prop} :
    (∀ id node, t.node? id = some node → P id node) ↔
      ∀ i : Fin t.nodes.size, P ⟨i⟩ (t.nodes[i]) := by
  constructor
  · intro h i
    exact h ⟨i⟩ _ (Array.getElem?_eq_getElem i.2)
  · intro h id node hn
    obtain ⟨inside, rfl⟩ := Array.getElem?_eq_some_iff.1 hn
    exact h ⟨id.index, inside⟩

instance : Decidable t.Descending := decidable_of_iff _ forall_node?_iff.symm

instance : Decidable t.ScriptsOnTop := decidable_of_iff _ forall_node?_iff.symm

instance : Decidable t.Ordered := decidable_of_iff _ forall_node?_iff.symm

theorem shielded_iff : t.Shielded ↔ ∀ i : Fin t.nodes.size,
    (t.nodes[i].form.isScript ∨ t.nodes[i].form.isStruct) →
      ∀ a ∈ t.climb t.size t.nodes[i].parent,
        (t.node? a).all fun above => !above.form.isMemberAccess := by
  refine Iff.trans ?_ (forall_node?_iff (P := fun _ node =>
    (node.form.isScript ∨ node.form.isStruct) → ∀ a ∈ t.climb t.size node.parent,
      (t.node? a).all fun above => !above.form.isMemberAccess))
  refine forall_congr' fun id => forall_congr' fun node => forall_congr' fun hn => ?_
  rw [ancestors_eq_ok hn]
  simp [Option.all_eq_true]

instance : Decidable t.Shielded := decidable_of_iff _ shielded_iff.symm

theorem usesOnce_iff : t.UsesOnce ↔ (∀ i : Fin t.nodes.size, t.nodes[i].form.children.Nodup) ∧
    ∀ i j : Fin t.nodes.size, ∀ child ∈ t.nodes[i].form.children,
      child ∈ t.nodes[j].form.children → i = j := by
  constructor
  · intro h
    have known (i : Fin t.nodes.size) : t.node? ⟨i⟩ = some t.nodes[i] :=
      Array.getElem?_eq_getElem i.2
    refine ⟨fun i => h.nodup (known i), fun i j child hi hj => ?_⟩
    have same : (⟨i⟩ : NodeId) = ⟨j⟩ := h.unique (known i) (known j) hi hj
    exact Fin.ext (congrArg NodeId.index same)
  · rintro ⟨nodup, unique⟩
    refine ⟨fun {id node} hn => ?_, fun {a b above other child} ha hb hc hc' => ?_⟩
    · obtain ⟨inside, rfl⟩ := Array.getElem?_eq_some_iff.1 hn
      exact nodup ⟨id.index, inside⟩
    · obtain ⟨insideA, rfl⟩ := Array.getElem?_eq_some_iff.1 ha
      obtain ⟨insideB, rfl⟩ := Array.getElem?_eq_some_iff.1 hb
      have same := unique ⟨a.index, insideA⟩ ⟨b.index, insideB⟩ child hc hc'
      cases a
      cases b
      simpa [Fin.ext_iff] using same

instance : Decidable t.UsesOnce := decidable_of_iff _ usesOnce_iff.symm

/-- A tree with some phrases, each of them one byte wide. -/
def ofForms (forms : List Form) : Tree :=
  forms.foldl (fun t form => t.add form ⟨t.size, t.size + 1⟩) .empty

theorem grown_ofForms {forms : List Form} (few : forms.length ≤ NodeId.limit) :
    (ofForms forms).Grown := by
  unfold ofForms
  generalize ht : Tree.empty = t
  have grown : t.Grown := ht ▸ .empty
  have room : t.size + forms.length ≤ NodeId.limit := by
    rw [← ht]
    simpa [Tree.empty, size] using few
  clear ht few
  induction forms generalizing t with
  | nil => exact grown
  | cons form forms ih =>
    rw [List.length_cons] at room
    exact ih _ (.add form _ (by omega) grown) (by rw [size_add]; omega)

/-! ## Names -/

theorem nameWithin_eq_ok (descending : t.Descending) (fuel : Nat) (has : t.Has id)
    (enough : id.index < fuel) : ∃ name, t.nameWithin fuel id = .ok name := by
  induction fuel generalizing id with
  | zero => omega
  | succ fuel ih =>
    obtain ⟨node, hn⟩ := has.node?
    -- Only the four phrases around a single identifier pass the search on, to a part.
    have below : ∀ child ∈ node.form.children, ∃ name, t.nameWithin fuel child = .ok name := by
      intro child hc
      have := descending id node hn child hc
      exact ih (descending.has hn hc) (by omega)
    rw [nameWithin, form_eq_ok hn]
    simp only [bind, Except.bind]
    split
    case h_1 name _ => exact ⟨some name, rfl⟩
    case h_6 => exact ⟨none, rfl⟩
    all_goals exact below _ (by simp_all [Form.children])

/-- Every node of a descending tree has a name or none, without a fault. -/
theorem nameOf_eq_ok (descending : t.Descending) (has : t.Has id) :
    ∃ name, t.nameOf id = .ok name :=
  nameWithin_eq_ok descending _ has (Nat.lt_succ_of_lt has)

/-! ## Walks -/

section Walks

variable {σ : Type} {visit : NodeId → StateT σ Outcome Step}

theorem length_children_le_fanOut (h : t.node? id = some node) :
    node.form.children.length ≤ t.fanOut := by
  have hmem : node ∈ t.nodes.toList := by
    obtain ⟨hlt, rfl⟩ := Array.getElem?_eq_some_iff.1 h
    simp
  have key : ∀ (nodes : List Node) (most : Nat), most ≤ nodes.foldl
      (fun most node => max most node.form.children.length) most ∧
      ∀ n ∈ nodes, n.form.children.length ≤ nodes.foldl
        (fun most node => max most node.form.children.length) most := by
    intro nodes
    induction nodes with
    | nil => simp
    | cons n nodes ih =>
      intro most
      obtain ⟨hle, hall⟩ := ih (max most n.form.children.length)
      refine ⟨by simp only [List.foldl_cons]; omega, ?_⟩
      intro m hm
      rcases List.mem_cons.1 hm with rfl | hm
      · simp only [List.foldl_cons]; omega
      · exact hall m hm
  have := (key t.nodes.toList 0).2 node hmem
  rwa [Array.foldl_toList] at this

theorem visitBound_succ (t : Tree) (depth : Nat) :
    t.visitBound (depth + 1) = (t.fanOut + 1) * t.visitBound depth :=
  Nat.mul_comm _ _

theorem visitBound_pos (t : Tree) (depth : Nat) : 0 < t.visitBound depth :=
  Nat.pow_pos (Nat.succ_pos _)

theorem visitBound_mono (t : Tree) {depth other : Nat} (h : depth ≤ other) :
    t.visitBound depth ≤ t.visitBound other :=
  Nat.pow_le_pow_right (Nat.succ_pos _) h

/-- A bound on the visits that a walk makes from each of some nodes on. -/
def visits (t : Tree) : List NodeId → Nat
  | [] => 0
  | id :: ids => t.visitBound (id.index + 1) + t.visits ids

theorem visits_append (t : Tree) (ids others : List NodeId) :
    t.visits (ids ++ others) = t.visits ids + t.visits others := by
  induction ids with
  | nil => simp [visits]
  | cons id ids ih => simp only [List.cons_append, visits, ih, Nat.add_assoc]

theorem visits_le {ids : List NodeId} {n : Nat} (h : ∀ id ∈ ids, id.index < n) :
    t.visits ids ≤ ids.length * t.visitBound n := by
  induction ids with
  | nil => simp [visits]
  | cons id ids ih =>
    have head : t.visitBound (id.index + 1) ≤ t.visitBound n := t.visitBound_mono (h id (by simp))
    have rest := ih fun other ho => h other (by simp [ho])
    simp only [visits, List.length_cons, Nat.succ_mul] at rest ⊢
    omega

theorem visits_children_lt (descending : t.Descending) (h : t.node? id = some node) :
    t.visits node.form.children < t.visitBound (id.index + 1) := by
  have pos := t.visitBound_pos id.index
  calc t.visits node.form.children
      ≤ node.form.children.length * t.visitBound id.index := visits_le (descending id node h)
    _ ≤ t.fanOut * t.visitBound id.index := Nat.mul_le_mul_right _ (length_children_le_fanOut h)
    _ < (t.fanOut + 1) * t.visitBound id.index := Nat.mul_lt_mul_of_pos_right (by omega) pos
    _ = t.visitBound (id.index + 1) := (t.visitBound_succ id.index).symm

theorem forM_congr {m : Type → Type} [Monad m] {f g : NodeId → m PUnit} {ids : List NodeId}
    (h : ∀ id ∈ ids, f id = g id) : ids.forM f = ids.forM g := by
  induction ids with
  | nil => rfl
  | cons id ids ih =>
    change f id >>= (fun _ => ids.forM f) = g id >>= (fun _ => ids.forM g)
    rw [h id (by simp), ih fun other ho => h other (by simp [ho])]

/-- A walk by recursion does not go deeper than the number of its root. -/
theorem walkWithin_eq (descending : t.Descending) {depth other : Nat} (has : t.Has id)
    (hd : id.index < depth) (ho : id.index < other) :
    t.walkWithin visit depth id = t.walkWithin visit other id := by
  induction depth generalizing other id with
  | zero => omega
  | succ depth ih =>
    obtain ⟨other, rfl⟩ := Nat.exists_eq_succ_of_ne_zero (by omega : other ≠ 0)
    obtain ⟨node, hn⟩ := has.node?
    have below : node.form.children.forM (t.walkWithin visit depth) =
        node.form.children.forM (t.walkWithin visit other) := by
      refine forM_congr ?_
      intro child hc
      have := descending id node hn child hc
      exact ih (descending.has hn hc) (by omega) (by omega)
    rw [walkWithin, walkWithin]
    congr 1
    funext step
    cases step with
    | skip => rfl
    | descend => rw [form_eq_ok hn]; exact below

/-- A stack of nodes is walked one node after the other, each with everything below it. -/
theorem walkStack_eq_forM (descending : t.Descending) (fuel : Nat) (stack : List NodeId)
    (has : ∀ id ∈ stack, t.Has id) (enough : t.visits stack ≤ fuel) :
    t.walkStack visit fuel stack = stack.forM (t.walkWithin visit t.size) := by
  induction fuel generalizing stack with
  | zero =>
    cases stack with
    | nil => rfl
    | cons id stack =>
      have := t.visitBound_pos (id.index + 1)
      simp only [visits] at enough
      omega
  | succ fuel ih =>
    cases stack with
    | nil => rfl
    | cons id stack =>
      have hid : t.Has id := has id (by simp)
      obtain ⟨node, hn⟩ := hid.node?
      obtain ⟨depth, hdepth⟩ := Nat.exists_eq_succ_of_ne_zero (Nat.ne_of_gt (Nat.zero_lt_of_lt hid))
      have hlt := visits_children_lt descending hn
      have hrest : ∀ other ∈ stack, t.Has other := fun other ho => has other (by simp [ho])
      simp only [visits] at enough
      have below : node.form.children.forM (t.walkWithin visit depth) =
          node.form.children.forM (t.walkWithin visit t.size) := by
        refine forM_congr fun child hc => ?_
        have := descending id node hn child hc
        have hlt : id.index < t.size := hid
        exact walkWithin_eq descending (descending.has hn hc) (by omega) (by omega)
      have skipped := ih stack hrest (by omega)
      have descended := ih (node.form.children ++ stack)
        (fun other ho => (List.mem_append.1 ho).elim (descending.has hn) (hrest other))
        (by rw [visits_append]; omega)
      change t.walkStack visit (fuel + 1) (id :: stack) =
        t.walkWithin visit t.size id >>= fun _ => stack.forM (t.walkWithin visit t.size)
      have root : t.walkWithin visit t.size id = t.walkWithin visit (depth + 1) id := by
        rw [hdepth]
      rw [root, walkWithin, bind_assoc, walkStack]
      congr 1
      funext step
      cases step with
      | skip => exact skipped.trans (pure_bind _ _).symm
      | descend =>
        rw [form_eq_ok hn]
        change t.walkStack visit fuel (node.form.children ++ stack) =
          node.form.children.forM (t.walkWithin visit depth) >>= fun _ => _
        rw [descended, below]
        exact List.forM_append

theorem walk_eq (descending : t.Descending) {root : NodeId} (has : t.Has root) :
    t.walk root visit = t.walkWithin visit t.size root := by
  have enough : t.visits [root] ≤ t.visitLimit := by
    have : root.index + 1 ≤ t.size + 1 := Nat.succ_le_succ (Nat.le_of_lt has)
    simpa [visits, visitLimit] using t.visitBound_mono this
  rw [walk, walkStack_eq_forM descending _ _ (by simpa using has) enough]
  exact bind_pure _

end Walks

/-! ## Everything below a node -/

/-- A node and everything below it, at most `depth` deep, in the order of a walk. -/
def preorder (t : Tree) : Nat → NodeId → List NodeId
  | 0, _ => []
  | depth + 1, id =>
    id :: (((t.node? id).map (·.form.children)).getD []).flatMap (preorder t depth)

theorem preorder_succ (h : t.node? id = some node) (depth : Nat) :
    t.preorder (depth + 1) id = id :: node.form.children.flatMap (t.preorder depth) := by
  simp [preorder, h]

theorem has_of_mem_preorder (descending : t.Descending) {depth : Nat} (has : t.Has id)
    {other : NodeId} (h : other ∈ t.preorder depth id) : t.Has other := by
  induction depth generalizing id with
  | zero => cases h
  | succ depth ih =>
    obtain ⟨node, hn⟩ := has.node?
    rw [preorder_succ hn, List.mem_cons, List.mem_flatMap] at h
    rcases h with rfl | ⟨child, hc, hother⟩
    · exact has
    · exact ih (descending.has hn hc) hother

section Collect

variable (wanted : Form → Bool)

/-- Whether the phrase at a node is wanted. -/
def isWanted (t : Tree) (id : NodeId) : Bool := (t.node? id).any (wanted ·.form)

/-- The visits of a collection. -/
def gather (t : Tree) (id : NodeId) : StateT (List NodeId) Outcome Step := do
  if wanted (← t.form id) then
    modify (· ++ [id])
  return .descend

theorem gather_run (h : t.node? id = some node) (found : List NodeId) :
    t.gather wanted id found = .ok (.descend, found ++ [id].filter (t.isWanted wanted)) := by
  unfold gather
  rw [bind_ok (liftM_ok (form_eq_ok h) found)]
  cases hw : wanted node.form <;> simp [isWanted, h, hw] <;> rfl

theorem walkWithin_gather (descending : t.Descending) (depth : Nat) (has : t.Has id)
    (enough : id.index < depth) (found : List NodeId) :
    t.walkWithin (t.gather wanted) depth id found =
      .ok ((), found ++ (t.preorder depth id).filter (t.isWanted wanted)) := by
  induction depth generalizing id found with
  | zero => omega
  | succ depth ih =>
    obtain ⟨node, hn⟩ := has.node?
    -- The parts of the node are gathered one after the other.
    have parts : ∀ children : List NodeId, (∀ child ∈ children, child ∈ node.form.children) →
        ∀ found, children.forM (t.walkWithin (t.gather wanted) depth) found =
          .ok ((), found ++ (children.flatMap (t.preorder depth)).filter (t.isWanted wanted)) := by
      intro children
      induction children with
      | nil => intro _ found; simp; rfl
      | cons child children ihc =>
        intro hc found
        have hchild := hc child (by simp)
        have hsmall := descending id node hn child hchild
        refine (bind_ok (ih (descending.has hn hchild) (by omega) found)).trans ?_
        refine (ihc (fun other ho => hc other (by simp [ho])) _).trans ?_
        simp
    rw [walkWithin, bind_ok (gather_run wanted hn found)]
    refine (bind_ok (liftM_ok (form_eq_ok hn) _)).trans ?_
    refine (parts _ (fun _ h => h) _).trans ?_
    rw [preorder_succ hn, List.append_assoc, ← List.filter_append, List.singleton_append]

/-- A collection finds what is wanted among everything below a node. -/
theorem collect_eq_ok (descending : t.Descending) {root : NodeId} (has : t.Has root) :
    t.collect wanted root = .ok ((t.preorder t.size root).filter (t.isWanted wanted)) := by
  change ((t.walk root (t.gather wanted)).run [] >>= fun r => .ok r.2) = _
  rw [walk_eq descending has]
  exact congrArg (· >>= fun r => Except.ok r.2)
    (walkWithin_gather wanted descending t.size has has [])

end Collect

end Tree

end PapyrusAnalysis
