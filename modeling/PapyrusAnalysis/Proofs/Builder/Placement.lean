import PapyrusAnalysis.Proofs.Builder.Calls

/-!
# Where a builder places nodes

Leaves stand one behind the other in the order in which they are made, and every other node has the
smallest range around its parts. This holds after every stride, so also after every call, however
often a node is used again. It follows that what is made of earlier leaves stands before what is
made of later ones.

## Main definitions

* `Tree.LeafBelow`: a node without parts that another node is made up of.
* `Builder.Laid`: what is true of the ranges while a tree is built.
* `Builder.Built`: the builders that calls lead to.
* `Builder.Orderly`: what is true of the ranges of a tree that has been built.

## Main statements

* `Builder.Built.follows_construction`: ranges follow the order of construction.
-/

namespace PapyrusAnalysis

namespace Tree

variable {t : Tree} {id : NodeId} {form : Form} {range : Range}

/-- After an addition, a node is the added one or was there before. -/
theorem add_cases (has : (t.add form range).Has id) :
    (id.index = t.size ∧ (t.add form range).formAt id = some form ∧
      (t.add form range).rangeAt id = some range) ∨
    (id.index < t.size ∧ (t.add form range).formAt id = t.formAt id ∧
      (t.add form range).rangeAt id = t.rangeAt id) := by
  have inside : id.index < t.size + 1 := size_add t form range ▸ has
  rw [formAt_add, rangeAt_add]
  by_cases last : id.index = t.size
  · exact .inl ⟨last, if_pos last, if_pos last⟩
  · exact .inr ⟨by omega, if_neg last, if_neg last⟩

theorem rangeAt_add_of_some {added : Range} (h : t.rangeAt id = some range) :
    (t.add form added).rangeAt id = some range := by
  have old : id.index < t.size := has_of_rangeAt h
  rw [rangeAt_add, if_neg (Nat.ne_of_lt old), h]

/-- A node without parts. -/
def IsLeaf (t : Tree) (id : NodeId) : Prop := ∃ form, t.formAt id = some form ∧ form.children = []

/-- Going from a node to one of its parts, and so on, leads to another node. -/
inductive LeadsTo (t : Tree) : NodeId → NodeId → Prop where
  | refl (id : NodeId) : LeadsTo t id id
  | part {id child other : NodeId} {form : Form} (hform : t.formAt id = some form)
      (hc : child ∈ form.children) (rest : LeadsTo t child other) : LeadsTo t id other

/-- A node without parts that another node is made up of. -/
def LeafBelow (t : Tree) (id leaf : NodeId) : Prop := t.LeadsTo id leaf ∧ t.IsLeaf leaf

end Tree

namespace Builder

variable {b b' : Builder} {id : NodeId}

/-! ## While a tree is built -/

/-- What is true of the ranges while a tree is built. -/
structure Laid (b : Builder) : Prop where
  small : b.cursor < offsetLimit
  parts : ∀ {id form}, b.tree.formAt id = some form → ∀ child ∈ form.children,
    child.index < id.index
  /-- A range has a text and lies before the cursor. -/
  bounds : ∀ {id range}, b.tree.rangeAt id = some range →
    range.start < range.stop ∧ range.stop < b.cursor
  /-- Leaves stand in the order in which they were made, with a gap between them. -/
  leaves : ∀ {id other range behind}, b.tree.IsLeaf id → b.tree.IsLeaf other →
    id.index < other.index → b.tree.rangeAt id = some range → b.tree.rangeAt other = some behind →
    range.stop < behind.start
  hulls : ∀ {id form range}, b.tree.formAt id = some form → form.children ≠ [] →
    b.tree.rangeAt id = some range → b.tree.Hull form.children range

theorem laid_empty : Laid .empty where
  small := by decide
  parts h := by cases h
  bounds h := by cases h
  leaves _ _ _ h := by cases h
  hulls h := by cases h

/-- A leaf behind the cursor or a node around others can be added. -/
theorem Laid.add {form : Form} {range : Range} {cursor : Nat} (laid : b.Laid)
    (small : cursor < offsetLimit) (later : b.cursor ≤ cursor)
    (ordered : range.start < range.stop) (before : range.stop < cursor)
    (leaf : form.children = [] → b.cursor ≤ range.start)
    (hull : form.children ≠ [] → b.tree.Hull form.children range) :
    Laid ⟨b.tree.add form range, cursor⟩ where
  small := small
  parts {id f} h child hc := by
    rcases Tree.add_cases (Tree.has_of_formAt h) with ⟨last, same, -⟩ | ⟨-, same, -⟩
    · cases same.symm.trans h
      obtain ⟨_, known, -⟩ := (hull (List.ne_nil_of_mem hc)).encloses child hc
      exact last ▸ Tree.has_of_rangeAt known
    · exact laid.parts (same ▸ h) child hc
  bounds {id r} h := by
    rcases Tree.add_cases (Tree.has_of_rangeAt h) with ⟨-, -, same⟩ | ⟨-, -, same⟩
    · cases same.symm.trans h
      exact ⟨ordered, before⟩
    · obtain ⟨ordered, before⟩ := laid.bounds (same ▸ h)
      exact ⟨ordered, Nat.lt_of_lt_of_le before later⟩
  leaves {id other r behind} hid hother lt hr hb := by
    obtain ⟨f, hf, bare⟩ := hid
    obtain ⟨g, hg, bare'⟩ := hother
    have inside : other.index < b.tree.size + 1 := Tree.size_add .. ▸ Tree.has_of_rangeAt hb
    rcases Tree.add_cases (Tree.has_of_rangeAt hr) with ⟨last, -⟩ | ⟨-, form, range⟩
    · omega
    · have leafBefore : b.tree.IsLeaf id := ⟨f, form ▸ hf, bare⟩
      have known := range ▸ hr
      -- The added node, if it is a leaf, stands behind the cursor and so behind all others.
      rcases Tree.add_cases (Tree.has_of_rangeAt hb) with ⟨-, form', range'⟩ | ⟨-, form', range'⟩
      · cases form'.symm.trans hg
        cases range'.symm.trans hb
        exact Nat.lt_of_lt_of_le (laid.bounds known).2 (leaf bare')
      · exact laid.leaves leafBefore ⟨g, form' ▸ hg, bare'⟩ lt known (range' ▸ hb)
  hulls {id f r} hf ne hr := by
    rcases Tree.add_cases (Tree.has_of_formAt hf) with ⟨-, form, range⟩ | ⟨-, form, range⟩
    · cases form.symm.trans hf
      cases range.symm.trans hr
      exact (hull ne).mono fun _ _ => Tree.rangeAt_add_of_some
    · exact (laid.hulls (form ▸ hf) ne (range ▸ hr)).mono fun _ _ => Tree.rangeAt_add_of_some

theorem Laid.restrict (laid : b.Laid) (id : NodeId) (scope : FlagSet MemberKind) :
    Laid ⟨b.tree.restrict id scope, b.cursor⟩ := by
  have forms := Tree.formAt_restrict b.tree id scope
  have ranges := Tree.rangeAt_restrict b.tree id scope
  refine ⟨laid.small, ?_, ?_, ?_, ?_⟩
  · intro other form h
    exact laid.parts (forms other ▸ h)
  · intro other range h
    exact laid.bounds (ranges other ▸ h)
  · intro one other range behind h h' lt hr hb
    simp only [Tree.IsLeaf, forms, ranges] at h h' hr hb
    exact laid.leaves h h' lt hr hb
  · intro other form range hf ne hr
    rw [forms] at hf
    rw [ranges] at hr
    exact (laid.hulls hf ne hr).mono fun x r h => (ranges x).trans h

theorem Laid.stride (laid : b.Laid) (h : Stride b b') : b'.Laid := by
  cases h with
  | @leaf form width bare wide fits =>
    exact laid.add fits (by omega) (Nat.lt_add_of_pos_right wide) (Nat.lt_succ_self _)
      (fun _ => Nat.le_refl _) fun ne => absurd bare ne
  | @around form range hull =>
    obtain ⟨first, hfirst, inner, known, starts⟩ := hull.starts
    obtain ⟨last, hlast, other, known', stops⟩ := hull.stops
    obtain ⟨_, again, inside⟩ := hull.encloses first hfirst
    cases known.symm.trans again
    have ordered := (laid.bounds known).1
    have before := (laid.bounds known').2
    rw [Range.containsRange_iff] at inside
    exact laid.add laid.small (Nat.le_refl _) (by omega) (by omega)
      (fun bare => absurd hfirst (by simp [bare])) fun _ => hull
  | restrict id scope => exact laid.restrict id scope

theorem Laid.grows (laid : b.Laid) (h : building.grows b b') : b'.Laid := by
  induction h with
  | refl => exact laid
  | tail _ last ih => exact ih.stride last

/-- The ends of a node are ends of leaves below it. -/
theorem Laid.exists_leaf (laid : b.Laid) (place : Range → Nat)
    (attained : ∀ {ids range}, b.tree.Hull ids range →
      ∃ id ∈ ids, ∃ inner, b.tree.rangeAt id = some inner ∧ place inner = place range)
    {range : Range} (h : b.tree.rangeAt id = some range) :
    ∃ leaf inner, b.tree.LeafBelow id leaf ∧ b.tree.rangeAt leaf = some inner ∧
      place inner = place range := by
  induction before : id.index using Nat.strongRecOn generalizing id range with
  | ind n ih =>
    obtain ⟨form, hform⟩ := (Tree.has_of_rangeAt h).formAt
    by_cases bare : form.children = []
    · exact ⟨id, range, ⟨.refl id, form, hform, bare⟩, h, rfl⟩
    · obtain ⟨child, hc, inner, known, same⟩ := attained (laid.hulls hform bare h)
      obtain ⟨leaf, last, ⟨leads, isLeaf⟩, found, equal⟩ :=
        ih child.index (before ▸ laid.parts hform child hc) known rfl
      exact ⟨leaf, last, ⟨.part hform hc leads, isLeaf⟩, found, equal.trans same⟩

/-- What comes of leaves that are made before others stands before what comes of those. -/
theorem Laid.before (laid : b.Laid) {m n : NodeId} {range behind : Range}
    (earlier : ∀ leaf other, b.tree.LeafBelow m leaf → b.tree.LeafBelow n other →
      leaf.index < other.index)
    (hm : b.tree.rangeAt m = some range) (hn : b.tree.rangeAt n = some behind) :
    range.stop < behind.start := by
  obtain ⟨leaf, inner, below, found, stops⟩ := laid.exists_leaf Range.stop Tree.Hull.stops hm
  obtain ⟨other, outer, below', found', starts⟩ :=
    laid.exists_leaf Range.start Tree.Hull.starts hn
  have apart := laid.leaves below.2 below'.2 (earlier leaf other below below') found found'
  omega

theorem Laid.toRange_toSpan (laid : b.Laid) {range : Range} (h : b.tree.rangeAt id = some range) :
    ∃ span, range.toSpan = .ok span ∧ span.toRange = .ok range := by
  obtain ⟨ordered, before⟩ := laid.bounds h
  have made : range.toSpan = .ok ⟨range.start, range.stop - range.start⟩ :=
    if_pos (Nat.le_of_lt ordered)
  exact ⟨_, made, Span.toRange_of_toSpan made (Nat.lt_trans before laid.small)⟩

/-! ## Constructions -/

/-- There are no more nodes than numbers, so every node has a number of its own. -/
def Numbered (b : Builder) : Prop := b.tree.size ≤ NodeId.limit

instance (b : Builder) : Decidable b.Numbered := inferInstanceAs (Decidable (_ ≤ _))

/-- A builder after some calls, each of which was given nodes that earlier ones returned, with the
nodes that they returned. The numbers for nodes have lasted so far. -/
inductive Built : Builder → List NodeId → Prop where
  | empty : Built .empty []
  | call {b b' : Builder} {ids : List NodeId} {id : NodeId} {c : Call} (built : Built b ids)
      (earlier : ∀ node ∈ c.nodes, node ∈ ids) (run : c.run b = .ok (id, b'))
      (room : b'.Numbered) : Built b' (ids ++ [id])

/-- Makes some calls, as long as the nodes that each one is given are there and the numbers for
nodes last. -/
def follow (b : Builder) (ids : List NodeId) : List Call → Option (Builder × List NodeId)
  | [] => some (b, ids)
  | c :: rest =>
    if c.nodes ⊆ ids then
      (c.run b).toOption.bind fun made =>
        if made.2.Numbered then follow made.2 (ids ++ [made.1]) rest else none
    else none

theorem Built.follow {ids ids' : List NodeId} {b' : Builder} {calls : List Call}
    (built : Built b ids) (h : b.follow ids calls = some (b', ids')) : Built b' ids' := by
  induction calls generalizing b ids with
  | nil =>
    obtain ⟨rfl, rfl⟩ := Prod.mk.inj (Option.some.inj h)
    exact built
  | cons c rest ih =>
    rw [Builder.follow] at h
    split at h
    · rename_i earlier
      cases run : c.run b with
      | ok made =>
        rw [run] at h
        change (if made.2.Numbered then _ else none) = some (b', ids') at h
        split at h
        · rename_i room
          exact ih (.call built (fun _ => (earlier ·)) run room) h
        · cases h
      | error _ => rw [run] at h; cases h
    · cases h

theorem Built.laid {ids : List NodeId} (built : Built b ids) : b.Laid ∧ b.Holds ids := by
  induction built with
  | empty => exact ⟨laid_empty, holds_nil⟩
  | @call b b' ids id c _ earlier run _ ih =>
    obtain ⟨laid, holds⟩ := ih
    obtain ⟨grows, -, made⟩ := (c.makes (holds.sub earlier)).of_ok run
    refine ⟨laid.grows grows, fun node hnode => ?_⟩
    rcases List.mem_append.1 hnode with old | new
    · exact holds.grows grows node old
    · exact made node new

/-- What is true of the ranges of a tree that has been built. -/
structure Orderly (b : Builder) : Prop extends Laid b where
  /-- A node with parts has the smallest range around them. -/
  covers : ∀ {id form range}, b.tree.formAt id = some form → form.children ≠ [] →
    b.tree.rangeAt id = some range → b.tree.Encloses form.children range ∧
      ∀ outer, b.tree.Encloses form.children outer → outer.containsRange range
  /-- A node stands before another one if its leaves were made before those of the other. -/
  before : ∀ {m n range behind}, (∀ leaf other, b.tree.LeafBelow m leaf →
      b.tree.LeafBelow n other → leaf.index < other.index) →
    b.tree.rangeAt m = some range → b.tree.rangeAt n = some behind → range.stop < behind.start
  /-- A range can be turned into a span and back. -/
  spans : ∀ {id range}, b.tree.rangeAt id = some range →
    ∃ span, range.toSpan = .ok span ∧ span.toRange = .ok range

theorem Laid.orderly (laid : b.Laid) : b.Orderly where
  toLaid := laid
  covers hform ne hr :=
    have hull := laid.hulls hform ne hr
    ⟨hull.encloses, fun _ => hull.least⟩
  before := laid.before
  spans := laid.toRange_toSpan

/-- The ranges of what is built follow the order of construction, which is that of the numbers of
the nodes as long as these last. A construction can go on until there is no offset left. -/
theorem Built.follows_construction {ids : List NodeId} (built : Built b ids) : b.Orderly ∧
    ∀ c : Call, (∀ node ∈ c.nodes, node ∈ ids) →
      (∃ id b', c.run b = .ok (id, b') ∧ b'.tree.Has id) ∨ c.run b = .error .offsetOverflow := by
  obtain ⟨laid, holds⟩ := built.laid
  refine ⟨laid.orderly, fun c earlier => ?_⟩
  cases c.makes (holds.sub earlier) with
  | @done id b' run _ _ made => exact .inl ⟨id, b', run, made id (by simp)⟩
  | fault run overflow => exact .inr (overflow ▸ run)

/-- The use of a variable, a return without a value, the sum of the use with itself, and a function
with both. -/
theorem reuse_follows_construction : ∃ b, Built b [⟨1⟩, ⟨2⟩, ⟨3⟩, ⟨7⟩] ∧
    b.tree.ids.map b.tree.rangeAt = [some ⟨0, 1⟩, some ⟨0, 1⟩, some ⟨2, 3⟩, some ⟨0, 1⟩,
      some ⟨4, 5⟩, some ⟨6, 7⟩, some ⟨4, 7⟩, some ⟨0, 7⟩] ∧ b.Orderly := by
  have used : Built _ [⟨1⟩] := .call .empty (c := .reference "x") (by decide) rfl (by decide)
  have returned : Built _ [⟨1⟩, ⟨2⟩] :=
    .call used (c := .returnStatement none) (by decide) rfl (by decide)
  have added : Built _ [⟨1⟩, ⟨2⟩, ⟨3⟩] :=
    .call returned (c := .binary ⟨1⟩ .add ⟨1⟩) (by decide) rfl (by decide)
  have built : Built _ [⟨1⟩, ⟨2⟩, ⟨3⟩, ⟨7⟩] :=
    .call added (c := .function none "F" [] ∅ [⟨3⟩, ⟨2⟩]) (by decide) rfl (by decide)
  exact ⟨_, built, by decide, built.follows_construction.1⟩

end Builder

end PapyrusAnalysis
