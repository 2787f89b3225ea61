import PapyrusAnalysis.Proofs.Binding.Places

/-!
# Every node declares once

In a tree in which no node is a part twice, no node is listed twice among those that get a symbol.
Each list of such nodes stays within the part of the tree that it is about, and these parts have no
node in common.
-/

namespace PapyrusAnalysis

namespace Tree

variable {t : Tree}

theorem Grown.nodup_roots (grown : t.Grown) : t.roots.Nodup := by
  induction grown with
  | empty => exact .nil
  | @add t form range room grown ih =>
    change (if form.isScript then t.roots ++ [t.nextId] else t.roots).Nodup
    rw [nextId_eq room]
    split
    · refine List.nodup_append.2 ⟨ih, by simp, ?_⟩
      rintro root hr _ hl rfl
      obtain ⟨node, hn, -⟩ := grown.mem_roots.1 hr
      have : root.index < t.size := has_of_node? hn
      rw [List.mem_singleton.1 hl] at this
      exact Nat.lt_irrefl _ this
    · exact ih
  | restrict id scope _ ih => exact ih

end Tree

namespace Binding

variable {t : Tree} {node : NodeId} {n : Node}

theorem below_nodeIf (wf : t.WellFormed) {id : NodeId} (hn : t.node? id = some n)
    {parts : List NodeId} (nodup : parts.Nodup) (sub : ∀ part ∈ parts, part ∈ n.form.children)
    (wanted : Form → Bool) : t.Below parts (parts.flatMap (nodeIf t wanted)) :=
  .flatMap wf hn nodup sub fun _ hp =>
    (Tree.Below.single (wf.descending.has hn (sub _ hp))).sublist List.filter_sublist

/-! ## Bodies -/

theorem below_parameterNodes (wf : t.WellFormed) {list : NodeId} :
    t.Below [list] (parameterNodes t list) := by
  unfold parameterNodes
  split
  · rename_i parameters hf
    obtain ⟨n, hn, hform⟩ := Option.map_eq_some_iff.1 hf
    have children : n.form.children = parameters := by rw [hform]; rfl
    exact (below_nodeIf wf hn (children ▸ wf.once.nodup hn) (by simp [children])
      isParameter).up wf hn
      (by simp [children])
  · exact .nil

theorem below_localNodes (wf : t.WellFormed) (hn : t.node? node = some n)
    {statements : List NodeId} (nodup : statements.Nodup)
    (sub : ∀ s ∈ statements, s ∈ n.form.children) :
    t.Below statements (localNodes t statements) :=
  .flatMap wf hn nodup sub fun _ hs =>
    (wf.below_preorder t.size (wf.descending.has hn (sub _ hs))).sublist List.filter_sublist

/-- The parameters are within the header of a function or event, and the variables within the
statements. -/
theorem below_bodyNodes (wf : t.WellFormed) (hn : t.node? node = some n)
    {header identifier list : NodeId} {statements : List NodeId}
    (children : n.form.children = header :: statements) {h : Node}
    (hh : t.node? header = some h) (hl : list ∈ h.form.children) :
    t.Below [node] (node :: bodyNodes t identifier list statements) := by
  have nodup := wf.once.nodup hn
  rw [children, List.nodup_cons] at nodup
  have body : t.Below (header :: statements) (bodyNodes t identifier list statements) := by
    unfold bodyNodes
    split
    · have parameters : t.Below [header] (parameterNodes t list) :=
        (below_parameterNodes wf).up wf hh (by simpa using hl)
      exact parameters.append wf hn
        (below_localNodes wf hn nodup.2 (by simp +contextual [children]))
        (by simp [children]) (by simpa using nodup.1)
    · exact .nil
  exact body.cons wf hn (by simp [children])

theorem below_functionNodes (wf : t.WellFormed) : t.Below [node] (functionNodes t node) := by
  unfold functionNodes
  split
  · rename_i header statements hf
    obtain ⟨n, hn, hform⟩ := Option.map_eq_some_iff.1 hf
    split
    · rename_i hg
      obtain ⟨h, hh, hform'⟩ := Option.map_eq_some_iff.1 hg
      exact below_bodyNodes wf hn (by rw [hform]; rfl) hh (by simp [hform', Form.children])
    · exact .nil
  · exact .nil

theorem below_eventNodes (wf : t.WellFormed) : t.Below [node] (eventNodes t node) := by
  unfold eventNodes
  split
  · rename_i header statements hf
    obtain ⟨n, hn, hform⟩ := Option.map_eq_some_iff.1 hf
    split
    · rename_i hg
      obtain ⟨h, hh, hform'⟩ := Option.map_eq_some_iff.1 hg
      exact below_bodyNodes wf hn (by rw [hform]; rfl) hh (by simp [hform', Form.children])
    · exact .nil
  · exact .nil

/-! ## Definitions -/

theorem mem_accessors {functions : List NodeId} {f : NodeId} (h : f ∈ accessors t functions) :
    f ∈ functions := by
  simp only [accessors, List.mem_append, Option.mem_toList, List.mem_filter] at h
  rcases h with (h | h) | h
  · exact List.mem_of_find?_eq_some h
  · exact List.mem_of_find?_eq_some h
  · exact h.1

/-- No function is both accessors, as they have different names. -/
theorem accessorAt_ne {functions : List NodeId} {f : NodeId}
    (getter : accessorAt t "get" functions = some f) : accessorAt t "set" functions ≠ some f := by
  intro setter
  have named {name : String} (h : accessorAt t name functions = some f) :
      ∃ found, (functionName? t f).toOption.join = some found ∧
        Text.folded name = Text.folded found := by
    have found := List.find?_some (p := fun f =>
      (functionName? t f).toOption.join.any (Text.sameFolded name)) h
    simpa [Text.sameFolded_iff] using (Option.any_eq_true _ _).1 found
  obtain ⟨found, hfound, isGet⟩ := named getter
  obtain ⟨found', hfound', isSet⟩ := named setter
  cases hfound.symm.trans hfound'
  exact absurd (isGet.trans isSet.symm) (by decide)

theorem nodup_accessors {functions : List NodeId} (nodup : functions.Nodup) :
    (accessors t functions).Nodup := by
  have single (o : Option NodeId) : o.toList.Nodup := by cases o <;> simp
  refine List.nodup_append.2 ⟨List.nodup_append.2 ⟨single _, single _, ?_⟩, nodup.filter _, ?_⟩
  · rintro f hf _ hf' rfl
    exact accessorAt_ne (Option.mem_toList.1 hf) (Option.mem_toList.1 hf')
  · rintro f hf _ hf' rfl
    simp only [List.mem_append, Option.mem_toList, List.mem_filter, Bool.and_eq_true,
      decide_eq_true_eq] at hf hf'
    rcases hf with hf | hf
    · exact hf'.2.1 hf.symm
    · exact hf'.2.2 hf.symm

/-- A declaration comes first and then, if it has a name, its parts. -/
theorem below_declaration (wf : t.WellFormed) (hn : t.node? node = some n) {parts : List NodeId}
    {f : NodeId → List NodeId} (named : Bool) (nodup : parts.Nodup)
    (sub : ∀ part ∈ parts, part ∈ n.form.children)
    (each : ∀ part ∈ parts, t.Below [part] (f part)) :
    t.Below [node] (node :: if named then parts.flatMap f else []) := by
  have rest : t.Below parts (if named then parts.flatMap f else []) := by
    split
    · exact .flatMap wf hn nodup sub each
    · exact .nil
  exact rest.cons wf hn sub

theorem below_propertyNodes (wf : t.WellFormed) : t.Below [node] (propertyNodes t node) := by
  unfold propertyNodes
  split
  · rename_i typeName identifier initial functions modifiers hf
    obtain ⟨n, hn, hform⟩ := Option.map_eq_some_iff.1 hf
    have sub : functions.Sublist n.form.children := by
      rw [hform]
      exact List.sublist_append_right (typeName :: identifier :: initial.toList) functions
    exact below_declaration wf hn _ (nodup_accessors ((wf.once.nodup hn).sublist sub))
      (fun f hm => sub.subset (mem_accessors hm)) fun _ _ => below_functionNodes wf
  · exact .nil

theorem below_groupNodes (wf : t.WellFormed) : t.Below [node] (groupNodes t node) := by
  unfold groupNodes
  split
  · rename_i identifier modifiers properties hf
    obtain ⟨n, hn, hform⟩ := Option.map_eq_some_iff.1 hf
    have children : n.form.children = identifier :: properties := by rw [hform]; rfl
    exact below_declaration wf hn _ (List.nodup_cons.1 (children ▸ wf.once.nodup hn)).2
      (by simp +contextual [children]) fun _ _ => below_propertyNodes wf
  · exact .nil

theorem below_structNodes (wf : t.WellFormed) : t.Below [node] (structNodes t node) := by
  unfold structNodes
  split
  · rename_i identifier members hf
    obtain ⟨n, hn, hform⟩ := Option.map_eq_some_iff.1 hf
    have children : n.form.children = identifier :: members := by rw [hform]; rfl
    refine below_declaration wf hn _ (List.nodup_cons.1 (children ▸ wf.once.nodup hn)).2
      (by simp +contextual [children]) fun part hp => ?_
    have has := wf.descending.has hn (by simp [children, hp] : part ∈ n.form.children)
    exact (Tree.Below.single has).sublist List.filter_sublist
  · exact .nil

theorem below_definitionNodes (wf : t.WellFormed) {depth : Nat} :
    t.Below [node] (definitionNodes t depth node) := by
  induction depth generalizing node with
  | zero => exact .nil
  | succ depth ih =>
    unfold definitionNodes
    split
    case h_1 hf | h_2 hf =>
      obtain ⟨n, hn, -⟩ := Option.map_eq_some_iff.1 hf
      exact .single (Tree.has_of_node? hn)
    case h_3 => exact below_propertyNodes wf
    case h_4 => exact below_functionNodes wf
    case h_5 => exact below_eventNodes wf
    case h_6 => exact below_groupNodes wf
    case h_7 => exact below_structNodes wf
    case h_8 identifier isAuto definitions hf =>
      obtain ⟨n, hn, hform⟩ := Option.map_eq_some_iff.1 hf
      have children : n.form.children = identifier :: definitions := by rw [hform]; rfl
      exact below_declaration wf hn _ (List.nodup_cons.1 (children ▸ wf.once.nodup hn)).2
        (by simp +contextual [children]) fun _ _ => ih
    case h_9 => exact .nil

/-! ## Scripts -/

theorem below_scriptNodes (wf : t.WellFormed) {root : NodeId} :
    t.Below [root] (scriptNodes t root) := by
  unfold scriptNodes
  split
  · rename_i header imports definitions hf
    obtain ⟨n, hn, hform⟩ := Option.map_eq_some_iff.1 hf
    have children : n.form.children = header :: (imports ++ definitions) := by rw [hform]; rfl
    have nodup := (List.nodup_cons.1 (children ▸ wf.once.nodup hn)).2
    obtain ⟨once, once', apart⟩ := List.nodup_append'.1 nodup
    split
    · rename_i identifier _ _ _
      have sub : ∀ part ∈ definitions ++ imports, part ∈ n.form.children := by
        simp +contextual [children, or_comm]
      have defined : t.Below definitions
          (definitions.flatMap (definitionNodes t (t.size + 1))) :=
        .flatMap wf hn once' (by simp +contextual [children]) fun _ _ => below_definitionNodes wf
      have imported : t.Below imports (imports.flatMap (nodeIf t isImport)) :=
        below_nodeIf wf hn once (by simp +contextual [children]) isImport
      split
      · exact (defined.append wf hn imported sub fun _ hd hi => apart hi hd).cons wf hn sub
      · exact Tree.Below.nil.cons wf hn sub
    · exact .nil
  · exact .nil

/-- Scripts stand apart. -/
theorem root_eq_of_within (wf : t.WellFormed) (top : t.ScriptsOnTop) {root root' : NodeId}
    (hr : root ∈ t.roots) (hr' : root' ∈ t.roots) (h : t.Within node root)
    (h' : t.Within node root') : root = root' := by
  have alone {root : NodeId} (hr : root ∈ t.roots) : t.parentAt root = none := by
    obtain ⟨n, hn, script⟩ := wf.grown.mem_roots.1 hr
    exact (Tree.parentAt_eq hn).trans (top root n hn script)
  rcases h.linear wf.grown h' with h | h
  · exact (((Tree.within_of_no_parent (alone hr)).1 h).2).symm
  · exact ((Tree.within_of_no_parent (alone hr')).1 h).2

/-- So no node gets a symbol twice. -/
theorem nodup_scriptNodes (wf : t.WellFormed) (top : t.ScriptsOnTop) :
    (t.roots.flatMap (scriptNodes t)).Nodup := by
  have within {root x : NodeId} (h : x ∈ scriptNodes t root) : t.Within x root := by
    simpa using (below_scriptNodes wf).within x h
  refine List.nodup_flatMap.2 ⟨fun root _ => (below_scriptNodes wf).nodup, ?_⟩
  refine (List.pairwise_iff_forall_sublist.2 fun {root root'} sub => ?_)
  intro x hx hx'
  have ne : root ≠ root' := by simpa using wf.grown.nodup_roots.sublist sub
  exact ne (root_eq_of_within wf top (sub.subset (by simp)) (sub.subset (by simp)) (within hx)
    (within hx'))

end Binding

end PapyrusAnalysis
