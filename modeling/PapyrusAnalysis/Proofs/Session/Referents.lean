import PapyrusAnalysis.Proofs.Session.Lasting
import PapyrusAnalysis.Proofs.Session.Pending
import PapyrusAnalysis.Proofs.Session.Termination

/-!
# Types of what is referred to

The type of a reference or call can be found in two ways. The expression can be asked for its type:
if it is the member of something, then it is asked for with the expression before the point. Or its
identifier can be asked for the symbols that it refers to, and the first of these that is declared
for the type that it was declared with: then the expression before the point is looked for in the
tree. While the expression is asked it is pending, and while the identifier is asked it is not. So
where the type of a variable depends on itself, the two ways may meet a pending node at different
times. They come to the same all the same.

## Main definitions

* `Query.referredType`: the type of what an identifier refers to.
* `Inference.Demand.around`: the questions that ask for a node with one base only.
-/

namespace PapyrusAnalysis

/-! ## References in a tree -/

namespace Form

variable {form : Form} {operand : NodeId × Option NodeId}

/-- An operand stands by itself unless it is a member of something. -/
theorem operand_cases (h : operand ∈ form.operands) :
    operand.1 ∈ form.children ∧ (operand.2 = none ∨
      ∃ base access, form = .memberAccess base access ∧ operand = (access, some base)) := by
  cases form with
  | declaration _ _ initial => cases initial <;> simp_all [operands, children]
  | unary operator _ => cases operator <;> simp_all [operands, children]
  | binary => rcases List.mem_pair.1 h with rfl | rfl <;> simp [children]
  | memberAccess => simp_all [operands, children]
  | _ => simp_all [operands, children]

theorem mem_children_of_referent? {identifier : NodeId} (h : form.referent? = some identifier) :
    identifier ∈ form.children := by
  cases form <;> simp_all [referent?, children]

end Form

namespace Tree

variable {t : Tree} {node identifier base access expression : NodeId} {form : Form}

/-- The search for a base passes by everything but arguments and member accesses. -/
theorem baseAmong_skip {lineage around : List NodeId} {n : Node} (hn : t.node? node = some n)
    (h : ∀ name value, n.form ≠ .argument name value)
    (h' : ∀ base access, n.form ≠ .memberAccess base access) :
    t.baseAmong lineage (node :: around) = t.baseAmong lineage around := by
  rw [baseAmong, hn, Option.map_some]
  split
  · rename_i hf
    exact absurd (Option.some.inj hf) (h _ _)
  · rename_i hf
    exact absurd (Option.some.inj hf) (h' _ _)
  · rfl

/-- A node with a name is neither an argument nor a member access. -/
theorem baseAmong_of_named {lineage around : List NodeId} {n : Node} {name : String}
    (hn : t.node? node = some n) (named : t.nameOf node = .ok (some name)) :
    t.baseAmong lineage (node :: around) = t.baseAmong lineage around := by
  rw [nameOf, nameWithin, form_eq_ok hn] at named
  refine baseAmong_skip hn ?_ ?_ <;> intro _ _ hf <;> rw [hf] at named <;> cases named

/-- The identifier of what stands behind a point belongs to what stands before it. -/
theorem WellFormed.baseFor_access (wf : t.WellFormed) {name : String}
    (hform : t.form node = .ok form) (refers : form.referent? = some identifier)
    (haccess : t.form expression = .ok (.memberAccess base node))
    (named : t.nameOf identifier = .ok (some name)) : t.baseFor identifier = .ok (some base) := by
  obtain ⟨n, hn, rfl⟩ := exists_node_of_form hform
  obtain ⟨m, hm, hf⟩ := exists_node_of_form haccess
  have inside := Form.mem_children_of_referent? refers
  have behind : node ∈ m.form.children := by simp [hf, Form.children]
  have before : base ∈ m.form.children := by simp [hf, Form.children]
  obtain ⟨i, hi⟩ := (wf.descending.has hn inside).node?
  have lineage : t.lineage identifier =
      .ok (identifier :: node :: expression :: t.outward expression) := by
    rw [lineage_eq (formAt_eq hi), outward_of_parent wf.grown (wf.parentAt hn inside),
      outward_of_parent wf.grown (wf.parentAt hm behind)]
  -- Were the base around the identifier, then so would be two parts of the expression.
  have apart : base ∉ identifier :: node :: expression :: t.outward expression := by
    intro around
    have within : t.Within identifier base := by
      rw [Within, isWithin, lineage]
      simpa [bind, Except.bind, pure, Except.pure] using around
    have same := wf.parts_disjoint hm before behind within
      ((wf.grown.within_of_parentAt (wf.parentAt hn inside)).2 (.inr (.refl (has_of_node? hn))))
    have nodup := wf.once.nodup hm
    simp [hf, Form.children, same] at nodup
  rw [baseFor, lineage]
  refine congrArg Except.ok ?_
  rw [baseAmong_of_named hi named, baseAmong_skip hn, baseAmong, hm, Option.map_some, hf]
  · exact if_neg (by simpa using apart)
  all_goals
    intro _ _ hform
    simp [hform, Form.referent?] at refers

end Tree

namespace Inference

open Query

variable {c : Codebase} {k : Inference} {node identifier : NodeId} {form : Form} {name : String}

/-! ## The two ways -/

/-- The type of a symbol that has been found. -/
def typeOfFound (k : Inference) (c : Codebase) : Option SymbolId → Query (Option TypeId)
  | some symbol => k.declaredType c symbol
  | none => return none

theorem firstType_eq (k : Inference) (c : Codebase) :
    k.firstType c = fun ids => firstDeclared c ids >>= k.typeOfFound c := by
  funext ids
  unfold firstType
  congr 1
  funext found
  cases found <;> rfl

/-- The type of what a member of a type with a name was declared with, if the type has members. -/
def memberType (k : Inference) (c : Codebase) (name : String) :
    Option TypeId → Query (Option TypeId)
  | none => return none
  | some type => do
    if (← Query.typeInfo type).isIntrinsic then return none
    k.membersNamed c type name >>= k.firstType c

theorem formType_of_referent (hform : c.tree.form node = .ok form)
    (refers : form.referent? = some identifier) (base : Option NodeId) :
    k.formType c node base = k.referenceType c identifier base := by
  unfold formType
  rw [hform]
  cases form <;> cases refers <;> rfl

theorem referenceType_unbased (named : c.tree.nameOf identifier = .ok (some name)) :
    k.referenceType c identifier none =
      k.matching c identifier name .everything >>= k.firstType c := by
  unfold referenceType
  rw [named]
  rfl

theorem referenceType_based (named : c.tree.nameOf identifier = .ok (some name)) (base : NodeId) :
    k.referenceType c identifier (some base) = k.typeOf base none >>= k.memberType c name := by
  unfold referenceType
  rw [liftM_bind_ok named]
  dsimp only
  congr 1
  funext found
  cases found <;> rfl

/-- The members of a type with a name, if there is a type. -/
def membersFound (k : Inference) (c : Codebase) (name : String) :
    Option TypeId → Query (List SymbolId)
  | none => return []
  | some type => k.membersNamed c type name

theorem findSymbols_unbased {name : Option String} (named : c.tree.nameOf identifier = .ok name)
    (unbased : c.tree.baseFor identifier = .ok none) :
    k.findSymbols c identifier = do
      let ids ← k.matching c identifier (name.getD "") .everything
      return ⟨none, ids⟩ := by
  unfold findSymbols
  rw [named, unbased]
  rfl

theorem findSymbols_based {name : Option String} (named : c.tree.nameOf identifier = .ok name)
    {base : NodeId} (based : c.tree.baseFor identifier = .ok (some base)) :
    k.findSymbols c identifier = do
      let found ← k.typeOf base none
      let ids ← k.membersFound c (name.getD "") found
      return ⟨some base, ids⟩ := by
  unfold findSymbols
  rw [liftM_bind_ok named, liftM_bind_ok based]
  dsimp only
  congr 1
  funext found
  cases found <;> rfl

/-- What can be named at a node that is no member of anything does not depend on types. -/
theorem matching_unbased (k k' : Inference) (unbased : c.tree.baseFor node = .ok none)
    (name : String) (filter : Filter) :
    k.matching c node name filter = k'.matching c node name filter := by
  have same (kinds : FlagSet MemberKind) :
      k.available c node kinds filter = k'.available c node kinds filter := by
    unfold available
    rw [unbased]
    rfl
  simp only [matching, same]

end Inference

namespace Query

open Inference

variable {c : Codebase} {identifier : NodeId} {name : String}

/-- The type of what an identifier refers to: that of the first of its symbols that is known and no
intrinsic type. -/
def referredType (c : Codebase) (identifier : NodeId) : Query (Option TypeId) := do
  let search ← symbolsFor c identifier
  match ← firstDeclared c search.symbols with
  | some symbol => declaredType c symbol
  | none => return none

theorem referredType_eq (c : Codebase) (identifier : NodeId) :
    referredType c identifier =
      symbolsFor c identifier >>= fun search => c.inference.firstType c search.symbols := by
  unfold referredType
  congr 1
  funext search
  rw [firstType_eq]
  congr 1

theorem referredType_unbased (named : c.tree.nameOf identifier = .ok (some name))
    (unbased : c.tree.baseFor identifier = .ok none) (k : Inference) :
    referredType c identifier =
      k.matching c identifier name .everything >>= c.inference.firstType c := by
  obtain ⟨depth, hdepth⟩ := c.inference_eq
  have found : symbolsFor c identifier = (atDepth c depth).findSymbols c identifier := by
    rw [symbolsFor, hdepth]
    rfl
  rw [referredType_eq, found, findSymbols_unbased named unbased, bind_assoc,
    matching_unbased _ k unbased]
  rfl

theorem referredType_based {depth : Nat} (hdepth : c.inference = atDepth c (depth + 1))
    (named : c.tree.nameOf identifier = .ok (some name)) {base : NodeId}
    (based : c.tree.baseFor identifier = .ok (some base)) :
    referredType c identifier = (atDepth c depth).typeOf base none >>= fun found =>
      (atDepth c depth).membersFound c name found >>= c.inference.firstType c := by
  have found : symbolsFor c identifier = (atDepth c depth).findSymbols c identifier := by
    rw [symbolsFor, hdepth]
    rfl
  rw [referredType_eq, found, findSymbols_based named based, bind_assoc]
  simp only [bind_assoc, pure_bind]
  rfl

end Query

/-! ## A node that is asked for with one base -/

namespace Inference

open Query

variable {c : Codebase} {node : NodeId} {base : Option NodeId}

/-- A node is asked for with one base only, if its type is asked for to find that of another. -/
structure BasedAlike (c : Codebase) (node : NodeId) (base : Option NodeId) : Prop where
  operand : ∀ {other form operand}, c.tree.form other = .ok form → operand ∈ form.operands →
    operand.1 = node → operand.2 = base
  before : ∀ {other access}, c.tree.form other = .ok (.memberAccess node access) → base = none
  declared : ∀ {id symbol}, c.symbols.get? id = some symbol → symbol.declaration = some node →
    base = none

/-- A phrase that only refers to something declares nothing. -/
theorem not_declared (firm : c.Firm) {form : Form} (hform : c.tree.form node = .ok form)
    (h : form.referent?.isSome ∨ form.isMemberAccess) {id : SymbolId} {symbol : Symbol}
    (hs : c.symbols.get? id = some symbol) : symbol.declaration ≠ some node := by
  intro hd
  obtain ⟨node', name, hd', hk, -⟩ := (firm.symbols.fits hs).declared
  cases hd.symm.trans hd'
  obtain ⟨n, hn, rfl⟩ := Tree.exists_node_of_form hform
  rw [Tree.declaration?, Tree.formAt_eq hn] at hk
  cases hf : n.form <;> simp_all [Form.referent?, Form.isMemberAccess]

namespace BasedAlike

variable {form : Form} {identifier expression before : NodeId} {name : String}

/-- A node whose identifier is no member of anything is no member of anything. -/
theorem of_unbased (orderly : c.Orderly) (hform : c.tree.form node = .ok form)
    (refers : form.referent? = some identifier)
    (named : c.tree.nameOf identifier = .ok (some name))
    (unbased : c.tree.baseFor identifier = .ok none) : BasedAlike c node none where
  operand hother hoperand same := by
    rcases (Form.operand_cases hoperand).2 with alone | ⟨base, access, rfl, rfl⟩
    · exact alone
    · subst same
      have based := orderly.wellFormed.baseFor_access hform refers hother named
      cases unbased.symm.trans based
  before _ := rfl
  declared _ _ := rfl

/-- What stands behind a point stands nowhere else. -/
theorem of_access (orderly : c.Orderly) (hform : c.tree.form node = .ok form)
    (refers : form.referent? = some identifier)
    (haccess : c.tree.form expression = .ok (.memberAccess before node)) :
    BasedAlike c node (some before) := by
  obtain ⟨m, hm, hf⟩ := Tree.exists_node_of_form haccess
  have behind : node ∈ m.form.children := by simp [hf, Form.children]
  have only {other : NodeId} {form : Form} (hother : c.tree.form other = .ok form)
      (inside : node ∈ form.children) : form = .memberAccess before node := by
    obtain ⟨n, hn, rfl⟩ := Tree.exists_node_of_form hother
    cases orderly.wellFormed.once.unique hn hm inside behind
    cases hn.symm.trans hm
    exact hf
  refine ⟨?_, ?_, fun hs hd => absurd hd ?_⟩
  · intro other form' operand hother hoperand same
    obtain ⟨inside, alone⟩ := Form.operand_cases hoperand
    cases only hother (same ▸ inside)
    simp only [Form.operands, List.mem_singleton] at hoperand
    rw [hoperand]
  · intro other access hother
    have twice := only hother (by simp [Form.children])
    cases twice
    have nodup := orderly.wellFormed.once.nodup hm
    simp [hf, Form.children] at nodup
  · exact not_declared orderly.toFirm hform (.inl (by simp [refers])) hs

end BasedAlike

/-- The questions that ask for a node with one base only. -/
def Demand.around (c : Codebase) (node : NodeId) (base : Option NodeId) : Demand where
  keeps := Session.Founded c
  types other before := (c.tree.Has other ∧ (other = node → before = base)) ∧
    ∀ b, before = some b → c.tree.Has b ∧ (b = node → base = none)
  names _ := True

namespace Demand

theorem around_base (descending : c.tree.Descending) (alike : BasedAlike c node base)
    {other before : NodeId} (h : c.tree.baseFor other = .ok (some before)) :
    (around c node base).types before none := by
  obtain ⟨lineage, -, rest⟩ := exists_of_bind_eq_ok h
  obtain ⟨id, -, n, access, hn, hf⟩ := Tree.baseAmong_eq_some (Except.ok.inj rest)
  have hform : c.tree.form id = .ok (.memberAccess before access) := hf ▸ Tree.form_eq_ok hn
  refine ⟨⟨descending.has hn (by simp [hf, Form.children]), ?_⟩, by simp⟩
  rintro rfl
  exact (alike.before hform).symm

theorem around_closed (orderly : c.Orderly) (alike : BasedAlike c node base) :
    (around c node base).Closed c where
  keeps _ := Iff.rfl
  unbased _ _ _ _ _ founded hi hs hd := (founded.declared_type orderly hi hs hd).unbased
  has h := h.1.1
  declared {s id symbol declaration} founded hs hd := by
    have known := founded.owns_of_declaration hs hd
    obtain ⟨node', identifier, hd', hk, -⟩ := (orderly.symbols.fits known).declared
    cases hd.symm.trans hd'
    obtain ⟨n, hn⟩ := Tree.node?_of_declaration? hk
    refine ⟨⟨Tree.has_of_node? hn, ?_⟩, by simp⟩
    rintro rfl
    exact (alike.declared known hd).symm
  types {other before} h := by
    have descending := orderly.wellFormed.descending
    refine ⟨?_, ?_, ?_⟩
    · intro form hform operand hoperand
      obtain ⟨n, hn, rfl⟩ := Tree.exists_node_of_form hform
      obtain ⟨inside, alone⟩ := Form.operand_cases hoperand
      refine ⟨⟨descending.has hn inside, alike.operand hform hoperand⟩, fun b hb => ?_⟩
      rcases alone with alone | ⟨base', access, hf, rfl⟩
      · rw [alone] at hb
        cases hb
      · cases hb
        refine ⟨descending.has hn (by simp [hf, Form.children]), ?_⟩
        rintro rfl
        exact alike.before (hf ▸ hform)
    · intro form identifier b hform refers hb
      obtain ⟨has, only⟩ := h.2 b hb
      exact ⟨⟨has, fun same => (only same).symm⟩, by simp⟩
    · intro form identifier hform refers hb before hbefore
      exact ⟨around_base descending alike hbefore, fun _ _ => trivial⟩
  names _ hbase := around_base orderly.wellFormed.descending alike hbase

end Demand

/-! ## Nodes that lead back to what is pending -/

variable {form : Form} {identifier : NodeId} {name : String} {s : Session}

/-- The type of a node that is not pending, from the run that finds it. -/
theorem findType_done {k : Inference} {q : List NodeId} {u : Session} {answer : Option TypeId}
    (fresh : node ∉ q)
    (run : k.formType c node base (u.during (node :: q)) = .ok (answer, u.during (node :: q))) :
    k.findType c node base (u.during q) = .ok (answer, u.during q) := by
  rw [findType_eq, if_neg (by simpa [Session.during] using fresh)]
  refine (congrArg (· >>= _) run).trans ?_
  exact congrArg (fun nodes => Except.ok (answer, u.during nodes)) (List.erase_cons_head ..)

theorem exists_depth {q : List NodeId} {depth : Nat} (has : c.tree.Has node) (fresh : node ∉ q)
    (enough : 2 * c.tree.unvisited q + 1 ≤ depth) : ∃ d, depth = d + 3 := by
  have fewer := Tree.unvisited_cons_lt has fresh
  exact ⟨depth - 3, by omega⟩

/-- While the declaration of what a node refers to is pending, the node has no type. -/
theorem muted_unbased (hform : c.tree.form node = .ok form)
    (refers : form.referent? = some identifier)
    (named : c.tree.nameOf identifier = .ok (some name)) {id : SymbolId} {symbol : Symbol}
    {declaration : NodeId}
    (found : ∀ {k : Inference} {u}, s.Retains c u → u.Founded c →
      (k.matching c identifier name .everything >>= firstDeclared c) u = .ok (some id, u))
    (hs : c.symbols.get? id = some symbol) (hd : symbol.declaration = some declaration) :
    Muted c (.around c node none) [node] declaration s := by
  intro other before q depth u hother asked fresh guarded enough retains founded
  cases List.mem_singleton.1 hother
  cases asked.1.2 rfl
  obtain ⟨d, rfl⟩ := exists_depth asked.1.1 fresh enough
  refine findType_done fresh ?_
  rw [formType_of_referent hform refers, referenceType_unbased named]
  rw [firstType_eq, ← bind_assoc, bind_ok (found (retains.during s.pending _) (founded.during _))]
  have known : symbol? c id (u.during (node :: q)) = .ok (some symbol, u.during (node :: q)) := by
    rw [symbol?_eq, Session.symbol?_own _ (SymbolTable.owns_of_get? hs), hs]
  refine (bind_ok known).trans ?_
  dsimp only
  rw [hd]
  exact findType_pending none (List.mem_cons_of_mem _ guarded)

/-- While what stands before a point is pending, neither what stands behind it nor the whole has a
type. -/
theorem muted_based {expression before : NodeId} (hform : c.tree.form node = .ok form)
    (refers : form.referent? = some identifier)
    (named : c.tree.nameOf identifier = .ok (some name))
    (haccess : c.tree.form expression = .ok (.memberAccess before node)) :
    Muted c (.around c node (some before)) [node, expression] before s := by
  have behind {q : List NodeId} {u : Session} {d : Nat} (guarded : before ∈ q) :
      (atDepth c (d + 2)).typeOf node (some before) (u.during q) = .ok (none, u.during q) := by
    by_cases pending : node ∈ q
    · exact findType_pending _ pending
    refine findType_done pending ?_
    rw [formType_of_referent hform refers, referenceType_based named]
    exact (bind_ok (findType_pending none (List.mem_cons_of_mem _ guarded))).trans rfl
  intro other base q depth u hother asked fresh guarded enough retains founded
  obtain ⟨d, rfl⟩ := exists_depth asked.1.1 fresh enough
  rcases List.mem_pair.1 hother with rfl | rfl
  · cases asked.1.2 rfl
    exact behind guarded
  · refine findType_done fresh ?_
    rw [formType, liftM_bind_ok haccess]
    exact behind (List.mem_cons_of_mem _ guarded)

/-! ## Both ways come to the same -/

/-- Nothing more is asked. -/
def Demand.nothing (c : Codebase) : Demand := ⟨Session.Founded c, fun _ _ => False, fun _ => False⟩

variable {k k' : Inference} {p q : List NodeId}

theorem Asks.alongside_nothing {α : Type} {f : Inference → Query α} (h : Asks c (.nothing c) f)
    (firm : c.Firm) (founded : s.Founded c) : Alongside c p q s (f k) (f k') :=
  h.alongside firm (fun _ founded => founded) founded (fun none => none.elim) fun none => none.elim

/-- Only the declaration of a symbol leads on to another type. -/
theorem alongside_typeOfFound (firm : c.Firm) (founded : s.Founded c) {found : Option SymbolId}
    (h : ∀ id symbol declaration, found = some id → c.symbols.get? id = some symbol →
      symbol.declaration = some declaration →
      Alongside c p q s (k.typeOf declaration none) (k'.typeOf declaration none)) :
    Alongside c p q s (k.typeOfFound c found) (k'.typeOfFound c found) := by
  cases found with
  | none => exact .pure founded none
  | some id =>
    have read (nodes : List NodeId) :
        symbol? c id (s.during nodes) = .ok (s.symbol? c id, s.during nodes) := rfl
    refine .known_left (read p) (.known_right (read q) ?_)
    cases hs : s.symbol? c id with
    | none => exact .pure founded none
    | some symbol =>
      dsimp only
      cases hd : symbol.declaration with
      | some declaration =>
        exact h id symbol declaration rfl (founded.owns_of_declaration hs hd) hd
      | none =>
        refine .plain firm founded ?_
        dsimp only
        split
        · exact .typeOfSymbol id
        · exact .typeOfSymbol id
        · exact .typeOfSymbol id
        · exact .pure _
        · exact .typeOfReference _
        · exact .pure none

/-- What refers to something and is no member has the type of what it refers to. -/
theorem alongside_unbased (orderly : c.Orderly) (founded : s.Founded c)
    (hform : c.tree.form node = .ok form) (refers : form.referent? = some identifier)
    (named : c.tree.nameOf identifier = .ok (some name))
    (unbased : c.tree.baseFor identifier = .ok none) :
    Alongside c [] [] s (Query.typeOf c node) (referredType c identifier) := by
  have firm := orderly.toFirm
  have enough := le_questionDepth c []
  obtain ⟨d, hd⟩ : ∃ d, c.questionDepth = d + 2 := ⟨c.questionDepth - 2, by omega⟩
  have depth : c.inference = atDepth c (d + 2) := by rw [Codebase.inference, hd]
  obtain ⟨n, hn, rfl⟩ := Tree.exists_node_of_form hform
  have has := orderly.wellFormed.descending.has hn (Form.mem_children_of_referent? refers)
  rw [Query.typeOf, depth, referredType_unbased named unbased (atDepth c (d + 1)), depth]
  refine findType_left (by simp) ?_
  rw [formType_of_referent hform refers, referenceType_unbased named, firstType_eq, firstType_eq]
  -- Both runs find the same symbols, and these last.
  have search : Asks c (.nothing c) fun k => k.matching c identifier name .everything :=
    .matching (fun base hb => by cases unbased.symm.trans hb) _ _
  refine .bind (search.alongside_nothing firm founded) fun ids t run retains founded' => ?_
  refine .bind (.plain firm founded' (.firstDeclared ids)) fun found u run' retains' founded'' => ?_
  refine alongside_typeOfFound firm founded'' fun id symbol declaration hfound hs hd => ?_
  subst hfound
  have lasts : Lasts c (s.during [node])
      ((atDepth c (d + 1)).matching c identifier name .everything >>= firstDeclared c)
      fun _ _ => True := by
    refine .bind (lasts_matching firm (founded.during _) has unbased name .everything) ?_
    intro ids t _ founded' found
    exact .imp (lasts_firstDeclared founded' fun id hid => (found.1 id hid).knows firm)
      fun _ _ _ _ _ => trivial
  obtain ⟨-, -, -, again⟩ := lasts ((bind_ok run).trans run')
  have muted : Muted c (.around c node none) [node] declaration u := by
    refine muted_unbased hform refers named (fun retains founded => ?_) hs hd
    rw [matching_unbased _ (atDepth c (d + 1)) unbased]
    exact again founded (retains.during [node] _)
  -- So the declaration is looked into alike.
  have closed := Demand.around_closed orderly (.of_unbased orderly hform refers named unbased)
  have foreign : declaration ≠ node := by
    rintro rfl
    exact not_declared firm hform (.inl (by simp [refers])) hs hd
  have asked : (Demand.around c node none).types declaration none :=
    closed.declared founded'' ((Session.symbol?_own u (SymbolTable.owns_of_get? hs)).trans hs) hd
  have fewer : c.tree.unvisited [node] < c.tree.unvisited [] :=
    Tree.unvisited_cons_lt (Tree.has_of_node? hn) (by simp)
  have fewer' : c.tree.unvisited [declaration, node] < c.tree.unvisited [node] :=
    Tree.unvisited_cons_lt asked.1.1 (by simpa using foreign)
  have fewer'' : c.tree.unvisited [declaration] < c.tree.unvisited [] :=
    Tree.unvisited_cons_lt asked.1.1 (by simp)
  refine findType_left (by simpa using foreign) (findType_right (by simp) ?_)
  refine alongside_formType closed firm muted ?_ (by simp) (by omega) (by omega)
    ((Session.naming c).refl u) founded'' asked
  simp

/-- A definition has a type of its own. -/
theorem alongside_definition (firm : c.Firm) (founded : s.Founded c) {id : SymbolId}
    {symbol : Symbol} (hs : c.symbols.get? id = some symbol)
    (hd : symbol.declaration = some node)
    (bare : c.tree.isWanted Binding.isDeclaration node = false) :
    Alongside c p q s (k.formType c node none) (k'.formType c node none) := by
  obtain ⟨node', identifier, hd', hk, -⟩ := (firm.symbols.fits hs).declared
  cases hd.symm.trans hd'
  have plain : ∀ form, c.tree.form node = .ok form →
      form.operands = [] ∧ form.referent? = none := by
    intro form hform
    obtain ⟨n, hn, rfl⟩ := Tree.exists_node_of_form hform
    rw [Tree.declaration?, Tree.formAt_eq hn] at hk
    rw [Binding.isWanted_of_formAt (Tree.formAt_eq hn)] at bare
    cases hf : n.form <;> simp_all [Form.operands, Form.referent?, Binding.isDeclaration]
  have asks : Asks c (.nothing c) fun k => k.formType c node none := by
    refine .formType_of (fun form hform operand h => ?_) fun form identifier hform h => ?_
    · rw [(plain form hform).1] at h
      cases h
    · rw [(plain form hform).2] at h
      cases h
  exact asks.alongside_nothing firm founded

section

variable (orderly : c.Orderly)
  (fresh : ∀ {id symbol declaration}, c.symbols.get? id = some symbol →
    symbol.declaration = some declaration → declaration ∉ p ∧ declaration ∉ q)

include orderly fresh

/-- The members of a type have types of their own. -/
theorem alongside_members (founded : s.Founded c) (type : TypeId) (name : String) (d e : Nat) :
    Alongside c p q s (k.membersNamed c type name >>= (atDepth c (d + 1)).firstType c)
      (k'.membersNamed c type name >>= (atDepth c (e + 1)).firstType c) := by
  have firm := orderly.toFirm
  have unbased : TypesUnbased c := fun _ _ _ _ _ founded hi hs hd =>
    (founded.declared_type orderly hi hs hd).unbased
  have asks : Asks c (.nothing c) fun k => k.membersNamed c type name :=
    .membersNamed (unbased.owners (.nothing c) fun _ founded => founded) type name
  rw [firstType_eq, firstType_eq]
  refine .bind (asks.alongside_nothing firm founded) fun ids t run retains founded' => ?_
  obtain ⟨-, kept, ⟨offered, -⟩, -⟩ := lasts_membersNamed orderly (founded.during p) type name run
  refine .bind (.plain firm founded' (.firstDeclared ids)) fun found u run' retains' founded'' => ?_
  obtain ⟨-, -, among, -⟩ :=
    lasts_firstDeclared kept (fun id hid => (offered id hid).knows) run'
  refine alongside_typeOfFound firm founded'' fun id symbol declaration hfound hs hd => ?_
  obtain ⟨other, ho, bare⟩ := offered id (among id hfound)
  rw [Session.symbol?_own _ (SymbolTable.owns_of_get? hs), hs] at ho
  cases ho
  refine findType_left (fresh hs hd).1 (findType_right (fresh hs hd).2 ?_)
  exact alongside_definition firm founded'' hs hd (bare declaration hd)

/-- The members of an intrinsic type are none, whichever way it is asked for them. -/
theorem alongside_memberType (founded : s.Founded c) (name : String) (found : Option TypeId)
    (d e : Nat) :
    Alongside c p q s ((atDepth c (d + 1)).memberType c name found)
      (k.membersFound c name found >>= (atDepth c (e + 1)).firstType c) := by
  cases found with
  | none => exact .pure founded none
  | some type =>
    cases hi : s.types.get? type with
    | none =>
      have failed (nodes : List NodeId) : Query.typeInfo type (s.during nodes) = .error _ :=
        liftM_error (TypeTable.get_eq_error hi) (s.during nodes)
      exact .fault (bind_error (failed p)) (bind_error (bind_error (failed q)))
    | some info =>
      have read (nodes : List NodeId) :
          Query.typeInfo type (s.during nodes) = .ok (info, s.during nodes) :=
        liftM_ok (TypeTable.get_eq_ok hi) (s.during nodes)
      refine .known_left (read p) ?_
      split
      · rename_i intrinsic
        obtain ⟨symbol, hs, kind, -⟩ := founded.types hi
        have none : k.membersNamed c type name (s.during q) = .ok ([], s.during q) := by
          have known : symbol? c info.symbol (s.during q) = .ok (some symbol, s.during q) := by
            rw [symbol?_eq]
            exact congrArg (fun found => Except.ok (found, s.during q)) hs
          refine (bind_ok (read q)).trans ((bind_ok known).trans ?_)
          dsimp only
          rw [if_pos (kind intrinsic)]
          rfl
        exact .known_right none (.pure founded _)
      · exact alongside_members orderly fresh founded type name d e

end

/-- What stands behind a point has the type of the member that it refers to. -/
theorem alongside_access (orderly : c.Orderly) (founded : s.Founded c)
    (hform : c.tree.form node = .ok form) (refers : form.referent? = some identifier)
    (named : c.tree.nameOf identifier = .ok (some name)) {expression before : NodeId}
    (haccess : c.tree.form expression = .ok (.memberAccess before node)) :
    Alongside c [] [] s (Query.typeOf c expression) (referredType c identifier) := by
  have firm := orderly.toFirm
  have wf := orderly.wellFormed
  have enough := le_questionDepth c []
  obtain ⟨n, hn, rfl⟩ := Tree.exists_node_of_form hform
  obtain ⟨m, hm, hf⟩ := Tree.exists_node_of_form haccess
  have behind : node ∈ m.form.children := by simp [hf, Form.children]
  have ahead : before ∈ m.form.children := by simp [hf, Form.children]
  -- Three nodes take part, none of them twice.
  have above : node ≠ expression := by
    rintro rfl
    exact absurd (wf.descending node m hm node behind) (Nat.lt_irrefl _)
  have above' : before ≠ expression := by
    rintro rfl
    exact absurd (wf.descending before m hm before ahead) (Nat.lt_irrefl _)
  have beside : before ≠ node := by
    have nodup := wf.once.nodup hm
    simpa [hf, Form.children] using nodup
  have fewer : c.tree.unvisited [expression] < c.tree.unvisited [] :=
    Tree.unvisited_cons_lt (Tree.has_of_node? hm) (by simp)
  have fewer' : c.tree.unvisited [node, expression] < c.tree.unvisited [expression] :=
    Tree.unvisited_cons_lt (Tree.has_of_node? hn) (by simpa using above)
  have fewer'' : c.tree.unvisited [before, node, expression] <
      c.tree.unvisited [node, expression] :=
    Tree.unvisited_cons_lt (wf.descending.has hm ahead) (by simp [above', beside])
  have alone : c.tree.unvisited [before] < c.tree.unvisited [] :=
    Tree.unvisited_cons_lt (wf.descending.has hm ahead) (by simp)
  obtain ⟨d, hd⟩ : ∃ d, c.questionDepth = d + 4 := ⟨c.questionDepth - 4, by omega⟩
  have depth : c.inference = atDepth c (d + 4) := by rw [Codebase.inference, hd]
  -- The first run makes the whole and what stands behind the point pending.
  rw [Query.typeOf, referredType_based depth named (wf.baseFor_access hform refers haccess named),
    depth]
  refine findType_left (by simp) ?_
  rw [formType, liftM_bind_ok haccess]
  refine findType_left (by simpa using above) ?_
  rw [formType_of_referent hform refers, referenceType_based named]
  have closed := Demand.around_closed orderly (.of_access orderly hform refers haccess)
  have asked : (Demand.around c node (some before)).types before none :=
    ⟨⟨wf.descending.has hm ahead, fun same => absurd same beside⟩, by simp⟩
  refine .bind (findType_left (by simp [above', beside]) (findType_right (by simp) ?_)) ?_
  · refine alongside_formType closed firm (muted_based hform refers named haccess) ?_ (by simp)
      (by omega) (by omega) ((Session.naming c).refl s) founded asked
    simp
  · intro found t _ _ founded'
    refine alongside_memberType orderly (fun hs hd => ?_) founded' name found (d + 1) (d + 3)
    refine ⟨?_, by simp⟩
    rw [List.mem_pair]
    rintro (rfl | rfl)
    · exact not_declared firm hform (.inl (by simp [refers])) hs hd
    · exact not_declared firm haccess (.inr rfl) hs hd

/-! ## Identifiers without a name -/

/-- An identifier without a name refers to nothing. -/
theorem symbolsFor_unnamed (orderly : c.Orderly) (founded : s.Founded c)
    (has : c.tree.Has identifier) (unnamed : c.tree.nameOf identifier = .ok none) {search : Search}
    {t : Session} (run : Query.symbolsFor c identifier s = .ok (search, t)) :
    search.symbols = [] := by
  have firm := orderly.toFirm
  obtain ⟨depth, hdepth⟩ := c.inference_eq
  rw [Query.symbolsFor, hdepth] at run
  change (atDepth c depth).findSymbols c identifier s = _ at run
  obtain ⟨base, hbase, -⟩ := Tree.baseFor_eq_ok orderly.wellFormed.descending has
  cases base with
  | none =>
    rw [findSymbols_unbased unnamed hbase] at run
    obtain ⟨ids, u, found, rest⟩ := bind_eq_ok run
    cases rest
    obtain ⟨-, -, ⟨-, none⟩, -⟩ := lasts_matching firm founded has hbase _ _ found
    exact none rfl
  | some base =>
    rw [findSymbols_based unnamed hbase] at run
    obtain ⟨type, u, asked, rest⟩ := bind_eq_ok run
    obtain ⟨ids, v, found, rest⟩ := bind_eq_ok rest
    cases rest
    have founded' :=
      ((atDepth_steady (Session.steps_naming firm) depth).1 base none founded asked).2
    cases type with
    | none =>
      cases found
      rfl
    | some type =>
      obtain ⟨-, -, ⟨-, none⟩, -⟩ := lasts_membersNamed orderly founded' type _ found
      exact none rfl

/-- What refers to nothing has no type. -/
theorem typeOf_unnamed (hform : c.tree.form node = .ok form)
    (refers : form.referent? = some identifier) (unnamed : c.tree.nameOf identifier = .ok none)
    (base : Option NodeId) (d : Nat) (s : Session) (q : List NodeId) :
    (atDepth c (d + 1)).typeOf node base (s.during q) = .ok (none, s.during q) := by
  by_cases pending : node ∈ q
  · exact findType_pending base pending
  · refine findType_done pending ?_
    rw [formType_of_referent hform refers, referenceType, liftM_bind_ok unnamed]
    rfl

end Inference

namespace Query

open Inference

variable {c : Codebase} {s : Session}

/-- A question finds the type of what an identifier refers to. If the identifier has no name, then
it refers to nothing, and no type is found. -/
structure Concurs (c : Codebase) (identifier : NodeId) (x : Query (Option TypeId)) (s : Session) :
    Prop where
  named : ∀ name, c.tree.nameOf identifier = .ok (some name) → x s = referredType c identifier s
  unnamed : c.tree.nameOf identifier = .ok none → (∃ t, x s = .ok (none, t)) ∧
    ∀ search t, symbolsFor c identifier s = .ok (search, t) → search.symbols = []

/-- A reference or call that is no member of anything has the type of what its identifier refers to,
and so has a member access with one behind the point, whatever depends on itself. -/
theorem typeOf_concurs (bound : c.Bound) (wf : c.tree.WellFormed) (top : c.tree.ScriptsOnTop)
    (shielded : c.tree.Shielded) (apart : c.ScriptsApart) (arises : s.Arises c)
    {node identifier : NodeId} {form : Form} (hform : c.tree.form node = .ok form)
    (refers : form.referent? = some identifier) :
    (c.tree.baseFor identifier = .ok none → Concurs c identifier (typeOf c node) s) ∧
    ∀ expression base, c.tree.form expression = .ok (.memberAccess base node) →
      Concurs c identifier (typeOf c expression) s := by
  have orderly := bound.orderly wf top shielded apart
  have founded := arises.founded orderly.toFirm
  have idle := arises.pending
  obtain ⟨n, hn, rfl⟩ := Tree.exists_node_of_form hform
  have has := wf.descending.has hn (Form.mem_children_of_referent? refers)
  have nothing := symbolsFor_unnamed orderly founded has
  obtain ⟨d, hd⟩ : ∃ d, c.questionDepth = d + 2 :=
    ⟨c.questionDepth - 2, by have := le_questionDepth c []; omega⟩
  have depth : c.inference = atDepth c (d + 2) := by rw [Codebase.inference, hd]
  refine ⟨fun unbased => ⟨fun name named => ?_, fun unnamed => ⟨⟨s, ?_⟩, ?_⟩⟩,
    fun expression base haccess => ⟨fun name named => ?_, fun unnamed => ⟨⟨s, ?_⟩, ?_⟩⟩⟩
  · exact Alongside.eq (idle ▸ alongside_unbased orderly founded hform refers named unbased)
  · rw [typeOf, depth]
    exact typeOf_unnamed hform refers unnamed none _ s s.pending
  · exact fun search t run => nothing unnamed run
  · exact Alongside.eq (idle ▸ alongside_access orderly founded hform refers named haccess)
  · rw [typeOf, depth]
    refine findType_done (q := s.pending) (by simp [idle]) ?_
    rw [formType, liftM_bind_ok haccess]
    exact typeOf_unnamed hform refers unnamed (some base) _ s (expression :: s.pending)
  · exact fun search t run => nothing unnamed run

/-- A variable with the type of a member, and one whose type depends on a member of itself:

    ScriptName A
    Int V
    Function F()
      A a
      var x = a.V
      var y = y.V
    EndFunction -/
def memberForms : List Form :=
  [.identifier "A", .scriptHeader ⟨0⟩ none ∅,
    .identifier "Int", .typeName ⟨2⟩ false, .identifier "V", .variableDefinition ⟨3⟩ ⟨4⟩ none ∅,
    .identifier "F", .parameterList [], .functionHeader none ⟨6⟩ ⟨7⟩ ∅,
    .identifier "A", .typeName ⟨9⟩ false, .identifier "a", .declaration ⟨10⟩ ⟨11⟩ none,
    .identifier "var", .typeName ⟨13⟩ false, .identifier "x", .identifier "a", .reference ⟨16⟩,
    .identifier "V", .reference ⟨18⟩, .memberAccess ⟨17⟩ ⟨19⟩,
    .declaration ⟨14⟩ ⟨15⟩ (some ⟨20⟩),
    .identifier "var", .typeName ⟨22⟩ false, .identifier "y", .identifier "y", .reference ⟨25⟩,
    .identifier "V", .reference ⟨27⟩, .memberAccess ⟨26⟩ ⟨28⟩,
    .declaration ⟨23⟩ ⟨24⟩ (some ⟨29⟩),
    .function ⟨8⟩ [⟨12⟩, ⟨21⟩, ⟨30⟩], .script ⟨1⟩ [] [⟨5⟩, ⟨31⟩]]

theorem members_concur : ∃ (c : Codebase) (s : Session),
    c.tree = .ofForms memberForms ∧ c.Bound ∧ c.tree.WellFormed ∧ c.tree.ScriptsOnTop ∧
    c.tree.Shielded ∧ c.ScriptsApart ∧ s.Arises c ∧
    c.tree.baseFor ⟨25⟩ = .ok none ∧ typeOf c ⟨26⟩ s = referredType c ⟨25⟩ s ∧
    typeOf c ⟨29⟩ s = referredType c ⟨27⟩ s ∧ typeOf c ⟨20⟩ s = referredType c ⟨18⟩ s ∧
    ∃ t, typeOf c ⟨20⟩ s = .ok (some Intrinsic.int.typeId, t) := by
  obtain ⟨p, run, fits⟩ := exists_ok_of_any (o := Program.ofTree (.ofForms memberForms))
    (f := fun p => decide (p.tree = .ofForms memberForms) && decide p.codebase.Unambiguous &&
      (Session.start p.codebase).toOption.any fun s =>
        (typeOf p.codebase ⟨20⟩ s).toOption.any fun (r : Option TypeId × Session) =>
          r.1 = some Intrinsic.int.typeId)
    (by decide +kernel)
  simp only [Bool.and_eq_true, decide_eq_true_eq] at fits
  obtain ⟨⟨tree, unambiguous⟩, fits⟩ := fits
  obtain ⟨s, started, fits⟩ := exists_ok_of_any fits
  obtain ⟨⟨found, t⟩, asked, fits⟩ := exists_ok_of_any fits
  obtain rfl : found = some Intrinsic.int.typeId := of_decide_eq_true fits
  have same : p.codebase.tree = .ofForms memberForms := tree
  have wf : p.codebase.tree.WellFormed :=
    same ▸ ⟨Tree.grown_ofForms (by decide), by decide +kernel, by decide +kernel⟩
  have top : p.codebase.tree.ScriptsOnTop := same ▸ by decide +kernel
  have shielded : p.codebase.tree.Shielded := same ▸ by decide +kernel
  have apart := Codebase.Unambiguous.scriptsApart unambiguous
  have arises : s.Arises p.codebase := ⟨s, started, .refl⟩
  have alone : p.codebase.tree.baseFor ⟨25⟩ = .ok none := same ▸ by decide +kernel
  have both (node identifier : NodeId)
      (hform : (Tree.ofForms memberForms).form node = .ok (.reference identifier)) :=
    typeOf_concurs (.program run) wf top shielded apart arises (same ▸ hform) rfl
  have named (node : NodeId) (name : String)
      (h : (Tree.ofForms memberForms).nameOf node = .ok (some name)) :
      p.codebase.tree.nameOf node = .ok (some name) := same ▸ h
  have access (node base behind : NodeId)
      (h : (Tree.ofForms memberForms).form node = .ok (.memberAccess base behind)) :
      p.codebase.tree.form node = .ok (.memberAccess base behind) := same ▸ h
  exact ⟨p.codebase, s, same, .program run, wf, top, shielded, apart, arises, alone,
    ((both ⟨26⟩ ⟨25⟩ (by decide +kernel)).1 alone).named "y" (named _ _ (by decide +kernel)),
    ((both ⟨28⟩ ⟨27⟩ (by decide +kernel)).2 ⟨29⟩ ⟨26⟩ (access _ _ _ (by decide +kernel))).named "V"
      (named _ _ (by decide +kernel)),
    ((both ⟨19⟩ ⟨18⟩ (by decide +kernel)).2 ⟨20⟩ ⟨17⟩ (access _ _ _ (by decide +kernel))).named "V"
      (named _ _ (by decide +kernel)), t, asked⟩

end Query

end PapyrusAnalysis
