import PapyrusAnalysis.Proofs.Tree.Parents

/-!
# What lies below a node

In a tree whose nodes come after their parts, and in which no node is a part twice, the nodes below
a node fall into the trees of its parts, which have no node in common.

## Main definitions

* `Tree.WellFormed`: trees that can come about, with every part before its node and used once.
* `Tree.Within`: a node is another one or lies below it.
-/

namespace PapyrusAnalysis

namespace Tree

variable {t : Tree} {id child other p a b : NodeId} {node : Node} {form : Form}

/-! ## The nodes below a node -/

theorem exists_node_of_form (h : t.form id = .ok form) :
    ∃ node, t.node? id = some node ∧ node.form = form := by
  cases hn : t.node? id with
  | none => simp [Tree.form, Tree.node, hn, bind, Except.bind] at h
  | some node => exact ⟨node, rfl, Except.ok.inj ((form_eq_ok hn).symm.trans h)⟩

/-- A tree that can come about, in which the parts of a node come before it and belong to no other
node. -/
structure WellFormed (t : Tree) : Prop where
  grown : t.Grown
  descending : t.Descending
  once : t.UsesOnce

/-- A node is another one or lies below it. -/
def Within (t : Tree) (id a : NodeId) : Prop := t.isWithin id a = .ok true

instance : Decidable (t.Within id a) := inferInstanceAs (Decidable (_ = _))

theorem within_iff : t.Within id a ↔ t.Has id ∧ (a = id ∨ a ∈ t.outward id) := by
  by_cases has : t.Has id
  · obtain ⟨node, hn⟩ := has.node?
    have run : t.isWithin id a = .ok ((id :: t.outward id).contains a) := by
      rw [isWithin, lineage_eq (formAt_eq hn)]
      rfl
    rw [Within, run]
    simp [has]
  · have unknown := not_has_iff.1 has
    have run : t.isWithin id a = .error (.unknownNode id.index) := by
      simp [isWithin, lineage, ancestors, parent, Tree.node, unknown, bind, Except.bind]
    rw [Within, run]
    simp [has]

theorem Within.has (h : t.Within id a) : t.Has id := (within_iff.1 h).1

theorem Within.refl (has : t.Has id) : t.Within id id := within_iff.2 ⟨has, .inl rfl⟩

/-- What lies within the parent of a node is what the node lies within, itself apart. -/
theorem Grown.within_of_parentAt (grown : t.Grown) (h : t.parentAt id = some p) :
    t.Within id a ↔ a = id ∨ t.Within p a := by
  obtain ⟨hid, hp, -⟩ := grown.has_of_parentAt h
  simp [within_iff, hid, hp, outward_of_parent grown h]

theorem within_of_no_parent (h : t.parentAt id = none) : t.Within id a ↔ t.Has id ∧ a = id := by
  simp [within_iff, outward_of_none h]

theorem Within.index_le (grown : t.Grown) (h : t.Within id a) : id.index ≤ a.index := by
  induction id using grown.inward with
  | step id ih =>
    cases hp : t.parentAt id with
    | none => obtain ⟨-, rfl⟩ := (within_of_no_parent hp).1 h; exact Nat.le_refl _
    | some p =>
      rcases (grown.within_of_parentAt hp).1 h with rfl | h
      · exact Nat.le_refl _
      · have := ih p hp h
        have := (grown.has_of_parentAt hp).2.2
        omega

theorem Within.trans (grown : t.Grown) (h : t.Within id a) (ha : t.Within a b) : t.Within id b := by
  induction id using grown.inward with
  | step id ih =>
    cases hp : t.parentAt id with
    | none => obtain ⟨-, rfl⟩ := (within_of_no_parent hp).1 h; exact ha
    | some p =>
      rcases (grown.within_of_parentAt hp).1 h with rfl | h
      · exact ha
      · exact (grown.within_of_parentAt hp).2 (.inr (ih p hp h))

/-- Of two nodes around a node, one lies below the other. -/
theorem Within.linear (grown : t.Grown) (ha : t.Within id a) (hb : t.Within id b) :
    t.Within a b ∨ t.Within b a := by
  induction id using grown.inward with
  | step id ih =>
    cases hp : t.parentAt id with
    | none => obtain ⟨-, rfl⟩ := (within_of_no_parent hp).1 ha; exact .inl hb
    | some p =>
      rcases (grown.within_of_parentAt hp).1 ha with rfl | ha'
      · exact .inl hb
      · rcases (grown.within_of_parentAt hp).1 hb with rfl | hb'
        · exact .inr ha
        · exact ih p hp ha' hb'

/-! ## Parts -/

/-- A part points back to the one node that it belongs to. -/
theorem WellFormed.parentAt (wf : t.WellFormed) (hn : t.node? id = some node)
    (hc : child ∈ node.form.children) : t.parentAt child = some id := by
  obtain ⟨part, hpart⟩ := (wf.descending.has hn hc).node?
  obtain ⟨q, hq⟩ := wf.grown.linked wf.descending hn hc hpart
  obtain ⟨-, above, ha, hc'⟩ := wf.grown.parent hpart hq
  rw [parentAt_eq hpart, hq, wf.once.unique ha hn hc' hc]

theorem WellFormed.within_of_part (wf : t.WellFormed) (hn : t.node? id = some node)
    (hc : child ∈ node.form.children) (h : t.Within other child) : t.Within other id :=
  h.trans wf.grown ((wf.grown.within_of_parentAt (wf.parentAt hn hc)).2
    (.inr (.refl (has_of_node? hn))))

/-- A node does not lie below its parts. -/
theorem WellFormed.not_within_part (wf : t.WellFormed) (hn : t.node? id = some node)
    (hc : child ∈ node.form.children) : ¬ t.Within id child := by
  intro h
  have := h.index_le wf.grown
  have := wf.descending id node hn child hc
  omega

/-- What lies below a node is within one of its parts. -/
theorem WellFormed.exists_part (wf : t.WellFormed) (hn : t.node? id = some node)
    (h : t.Within other id) (ne : other ≠ id) :
    ∃ child ∈ node.form.children, t.Within other child := by
  induction other using wf.grown.inward with
  | step other ih =>
    cases hp : t.parentAt other with
    | none => exact absurd ((within_of_no_parent hp).1 h).2.symm ne
    | some p =>
      rcases (wf.grown.within_of_parentAt hp).1 h with rfl | hpid
      · exact absurd rfl ne
      · by_cases same : p = id
        · subst same
          obtain ⟨part, hpart, hq⟩ := Option.bind_eq_some_iff.1 hp
          obtain ⟨-, above, ha, hc⟩ := wf.grown.parent hpart hq
          cases hn.symm.trans ha
          exact ⟨other, hc, .refl (has_of_node? hpart)⟩
        · obtain ⟨child, hc, hw⟩ := ih p hp hpid same
          exact ⟨child, hc, (wf.grown.within_of_parentAt hp).2 (.inr hw)⟩

/-- The trees of two parts of a node have no node in common. -/
theorem WellFormed.parts_disjoint (wf : t.WellFormed) (hn : t.node? id = some node)
    (ha : a ∈ node.form.children) (hb : b ∈ node.form.children) (hwa : t.Within other a)
    (hwb : t.Within other b) : a = b := by
  -- Were one part below the other, the node would be below the latter as well.
  have apart {x y : NodeId} (hx : x ∈ node.form.children) (hy : y ∈ node.form.children)
      (h : t.Within x y) : y = x := by
    rcases (wf.grown.within_of_parentAt (wf.parentAt hn hx)).1 h with same | inside
    · exact same
    · exact absurd inside (wf.not_within_part hn hy)
  rcases hwa.linear wf.grown hwb with h | h
  · exact (apart ha hb h).symm
  · exact apart hb ha h

end Tree

end PapyrusAnalysis
