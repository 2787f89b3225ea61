import PapyrusAnalysis.Proofs.Session.Naming

/-!
# Questions while nodes are pending

A pending node has no type, so what is answered depends on which nodes are pending. Two runs of a
question are compared, in sessions that differ in the pending nodes only. If the nodes that are
pending in the first run and not in the second one turn out to have no type in the second run
either, then both runs end alike.

## Main definitions

* `Session.during`: a session while some nodes are pending.
* `Query.Alongside`: two runs that end alike while different nodes are pending.
* `Inference.Muted`: nodes that have no type while some other node is pending.
-/

namespace PapyrusAnalysis

/-- A session while some nodes are pending. -/
def Session.during (s : Session) (nodes : List NodeId) : Session := { s with pending := nodes }

theorem Session.Founded.during {c : Codebase} {s : Session} (h : s.Founded c)
    (nodes : List NodeId) : (s.during nodes).Founded c :=
  h.withPending nodes

/-- Which nodes are pending plays no part in how a session grows. -/
theorem Session.Retains.during {c : Codebase} {s t : Session} (h : s.Retains c t)
    (nodes nodes' : List NodeId) : (s.during nodes).Retains c (t.during nodes') :=
  ⟨⟨h.grown.types, h.grown.synthetic⟩, h.named⟩

namespace Query

variable {c : Codebase} {s : Session} {p q : List NodeId} {α β : Type}

theorem scriptType_during (id : SymbolId) (s : Session) (nodes : List NodeId) :
    scriptType c id (s.during nodes) =
      (scriptType c id s).map fun r => (r.1, r.2.during nodes) := by
  have same : (s.during nodes).symbol? c id = s.symbol? c id := rfl
  rw [scriptType_eq, scriptType_eq, same]
  cases s.symbol? c id with
  | none => rfl
  | some symbol =>
    dsimp only
    split
    · rfl
    split
    · rfl
    · have named : (s.during nodes).named = s.named := rfl
      rw [named]
      cases s.named.find? (Session.qualifiedKey symbol) <;> rfl

theorem arrayOf_during (element : String) (s : Session) (nodes : List NodeId) :
    arrayOf element (s.during nodes) =
      (arrayOf element s).map fun r => (r.1, r.2.during nodes) := by
  have read (s : Session) : (MonadState.get : Query Session) s = .ok (s, s) := rfl
  have arrays : (s.during nodes).arrays = s.arrays := rfl
  unfold arrayOf
  rw [bind_ok (read _), bind_ok (read s), arrays]
  cases s.arrays.find? (Text.lowercase element) with
  | some type => rfl
  | none =>
    dsimp only
    rw [bind_ok (read _), bind_ok (read s)]
    have synthetic : (s.during nodes).synthetic = s.synthetic := rfl
    rw [synthetic]
    cases made : (ArrayMembers.create element).run s.synthetic with
    | error e => rfl
    | ok r => rfl

theorem bind_during {x : Query α} {f : α → Query β} {nodes : List NodeId}
    (first : ∀ s, x (s.during nodes) = (x s).map fun r => (r.1, r.2.during nodes))
    (next : ∀ a s, f a (s.during nodes) = (f a s).map fun r => (r.1, r.2.during nodes))
    (s : Session) :
    (x >>= f) (s.during nodes) = ((x >>= f) s).map fun r => (r.1, r.2.during nodes) := by
  cases run : x s with
  | error e =>
    have failed : x (s.during nodes) = .error e := by rw [first s, run]; rfl
    rw [bind_error failed, bind_error run]
    rfl
  | ok r =>
    have ran : x (s.during nodes) = .ok (r.1, r.2.during nodes) := by rw [first s, run]; rfl
    rw [bind_ok ran, bind_ok run, next]

/-- A plain question takes no notice of what is pending. -/
theorem Plain.during {arrays : Prop} {x : Query α} (h : Plain c arrays x) (s : Session)
    (nodes : List NodeId) : x (s.during nodes) = (x s).map fun r => (r.1, r.2.during nodes) := by
  induction h generalizing s with
  | read f blind => exact congrArg (fun a => Except.ok (a, s.during nodes)) (blind s nodes)
  | lift o => cases o <;> rfl
  | script id => exact scriptType_during id s nodes
  | array _ element _ named =>
    rw [arrayTypeFor_eq]
    refine bind_during named (fun found s => ?_) s
    cases found with
    | none => rfl
    | some type => exact arrayOf_during element s nodes
  | bind _ _ first next => exact bind_during first next s

/-- A question that takes no notice of what is pending does not change it. -/
theorem pending_of_during {x : Query α} {t : Session} {a : α}
    (h : x (s.during s.pending) = (x s).map fun r => (r.1, r.2.during s.pending))
    (run : x s = .ok (a, t)) : t.pending = s.pending := by
  rw [show s.during s.pending = s from rfl, run] at h
  exact congrArg (fun r : α × Session => r.2.pending) (Except.ok.inj h)

/-- Two questions end alike while different nodes are pending: with the same answer, and in sessions
that are the same but for the pending nodes. -/
inductive Alongside (c : Codebase) (p q : List NodeId) (s : Session) (x y : Query α) : Prop where
  | done {a : α} {t : Session} (left : x (s.during p) = .ok (a, t.during p))
      (right : y (s.during q) = .ok (a, t.during q)) (retains : s.Retains c t)
      (founded : t.Founded c)
  | fault {e : Fault} (left : x (s.during p) = .error e) (right : y (s.during q) = .error e)

namespace Alongside

theorem pure (founded : s.Founded c) (a : α) :
    Alongside c p q s (Pure.pure a) (Pure.pure a) :=
  .done rfl rfl ((Session.naming c).refl s) founded

theorem plain {x : Query α} (firm : c.Firm) (founded : s.Founded c) (h : Plain c True x) :
    Alongside c p q s x x := by
  have left := h.during s p
  have right := h.during s q
  cases run : x s with
  | error e =>
    rw [run] at left right
    exact .fault left right
  | ok r =>
    rw [run] at left right
    obtain ⟨retains, founded'⟩ := h.steady (Session.steps_naming firm) founded run
    exact .done left right retains founded'

theorem bind {x y : Query α} {f g : α → Query β} (h : Alongside c p q s x y)
    (next : ∀ a t, x (s.during p) = .ok (a, t.during p) → s.Retains c t → t.Founded c →
      Alongside c p q t (f a) (g a)) : Alongside c p q s (x >>= f) (y >>= g) := by
  cases h with
  | fault left right => exact .fault (bind_error left) (bind_error right)
  | done left right retains founded =>
    cases next _ _ left retains founded with
    | fault left' right' =>
      exact .fault ((bind_ok left).trans left') ((bind_ok right).trans right')
    | done left' right' retains' founded' =>
      exact .done ((bind_ok left).trans left') ((bind_ok right).trans right')
        ((Session.naming c).trans retains retains') founded'

/-- A step of the first run with a known answer that leaves the session as it is. -/
theorem known_left {x : Query α} {a : α} {f : α → Query β} {y : Query β}
    (run : x (s.during p) = .ok (a, s.during p)) (h : Alongside c p q s (f a) y) :
    Alongside c p q s (x >>= f) y := by
  cases h with
  | fault left right => exact .fault ((bind_ok run).trans left) right
  | done left right retains founded =>
    exact .done ((bind_ok run).trans left) right retains founded

theorem symm {x y : Query α} (h : Alongside c p q s x y) : Alongside c q p s y x := by
  cases h with
  | fault left right => exact .fault right left
  | done left right retains founded => exact .done right left retains founded

theorem known_right {x : Query β} {y : Query α} {a : α} {f : α → Query β}
    (run : y (s.during q) = .ok (a, s.during q)) (h : Alongside c p q s x (f a)) :
    Alongside c p q s x (y >>= f) :=
  (known_left run h.symm).symm

/-- Two questions that end alike have the same answer. -/
theorem eq {x y : Query α} (h : Alongside c s.pending s.pending s x y) : x s = y s := by
  cases h with
  | fault left right => exact left.trans right.symm
  | done left right => exact left.trans right.symm

end Alongside

end Query

namespace Session

variable {c : Codebase} {s : Session}

/-- The nodes that are pending stay the same. -/
def undisturbed : Conduct Session where
  keeps _ := True
  grows s t := t.pending = s.pending
  refl _ := rfl
  trans h h' := h'.trans h
  tolerates _ := True

theorem steps_undisturbed : Query.Steps c undisturbed where
  scriptType id s _ _ _ run :=
    ⟨Query.pending_of_during (Query.scriptType_during id s s.pending) run, trivial⟩
  arrayOf element s _ _ _ _ run :=
    ⟨Query.pending_of_during (Query.arrayOf_during element s s.pending) run, trivial⟩
  pending {s t node} _ := by
    refine ⟨trivial, fun grows _ => ⟨?_, trivial⟩⟩
    change t.pending.erase node = s.pending
    rw [show t.pending = node :: s.pending from grows, List.erase_cons_head]

/-- When a question has been answered, nothing is pending any more. -/
theorem Arises.pending (h : s.Arises c) : s.pending = [] := by
  obtain ⟨first, started, leads⟩ := h
  rw [start_eq] at started
  split at started
  · cases started
    exact (leads.steady steps_undisturbed trivial).1
  · cases started

end Session

namespace Inference

open Query

variable {c : Codebase} {s : Session} {p q : List NodeId} {α : Type} {k k' : Inference}

/-- The type of a node is worked out in the first run only. -/
theorem findType_left {node : NodeId} {base : Option NodeId} {y : Query (Option TypeId)}
    (fresh : node ∉ p) (h : Alongside c (node :: p) q s (k.formType c node base) y) :
    Alongside c p q s (k.findType c node base) y := by
  have run := findType_eq (c := c) k node base (s.during p)
  rw [if_neg (by simpa [Session.during] using fresh)] at run
  cases h with
  | fault left right =>
    refine .fault (run.trans ?_) right
    exact congrArg (· >>= _) left
  | @done a t left right retains founded =>
    refine .done (run.trans ?_) right retains founded
    refine (congrArg (· >>= _) left).trans ?_
    exact congrArg (fun nodes => Except.ok (a, t.during nodes)) (List.erase_cons_head ..)

theorem findType_right {node : NodeId} {base : Option NodeId} {x : Query (Option TypeId)}
    (fresh : node ∉ q) (h : Alongside c p (node :: q) s x (k.formType c node base)) :
    Alongside c p q s x (k.findType c node base) :=
  (findType_left fresh h.symm).symm

/-- A node that is pending has no type. -/
theorem findType_pending {node : NodeId} (base : Option NodeId) (pending : node ∈ p) :
    k.findType c node base (s.during p) = .ok (none, s.during p) := by
  rw [findType_eq, if_pos (by simpa [Session.during] using pending)]

/-- Questions that are put together from others end alike if the others do. -/
theorem Asks.alongside {Q : Demand} {f : Inference → Query α} (h : Asks c Q f) (firm : c.Firm)
    (keeps : ∀ t, t.Founded c → Q.keeps t) (founded : s.Founded c)
    (types : ∀ {node base t}, Q.types node base → s.Retains c t → t.Founded c →
      Alongside c p q t (k.typeOf node base) (k'.typeOf node base))
    (names : ∀ {identifier t}, Q.names identifier → s.Retains c t → t.Founded c →
      Alongside c p q t (k.symbolsFor identifier) (k'.symbolsFor identifier)) :
    Alongside c p q s (f k) (f k') := by
  have refl := (Session.naming c).refl s
  induction h generalizing s with
  | plain h => exact .plain firm founded h
  | typeOf h => exact types h refl founded
  | symbolsFor h => exact names h refl founded
  | bind _ _ first next =>
    refine .bind (first founded types names refl) fun a t _ retains founded' => ?_
    have trans {u : Session} (h : t.Retains c u) : s.Retains c u :=
      (Session.naming c).trans retains h
    exact next a founded' (fun h r => types h (trans r)) (fun h r => names h (trans r))
      ((Session.naming c).refl t)
  | @after _ _ x _ P first known _ next =>
    refine .bind (.plain firm founded first) fun a t run retains founded' => ?_
    have trans {u : Session} (h : t.Retains c u) : s.Retains c u :=
      (Session.naming c).trans retains h
    exact next a (known (keeps _ (founded.during p)) run) founded' (fun h r => types h (trans r))
      (fun h r => names h (trans r)) ((Session.naming c).refl t)

/-- The nodes of a list have no type from some session on while a further node is pending, although
they are not pending themselves. -/
def Muted (c : Codebase) (Q : Demand) (extra : List NodeId) (guard : NodeId) (s : Session) : Prop :=
  ∀ ⦃node base q depth u⦄, node ∈ extra → Q.types node base → node ∉ q → guard ∈ q →
    2 * c.tree.unvisited q + 1 ≤ depth → s.Retains c u → u.Founded c →
    (atDepth c depth).typeOf node base (u.during q) = .ok (none, u.during q)

/-- The same questions but for those about the symbols for identifiers. -/
def Demand.withoutNames (Q : Demand) : Demand := { Q with names := fun _ => False }

/-- The declaration of the symbol that a type belongs to is a member of nothing. -/
def TypesUnbased (c : Codebase) : Prop :=
  ∀ ⦃s type info symbol node⦄, Session.Founded c s → s.types.get? type = some info →
    s.symbol? c info.symbol = some symbol → symbol.declaration = some node →
    c.tree.baseFor node = .ok none

theorem TypesUnbased.owners (unbased : TypesUnbased c) (Q : Demand)
    (keeps : ∀ s, Q.keeps s → s.Founded c) : Asks.Owners c Q := by
  intro s type info symbol node kept hi hs hd base hbase
  cases (unbased (keeps s kept) hi hs hd).symm.trans hbase

/-- What may be asked in a codebase if its own questions are to be among it. -/
structure Demand.Closed (c : Codebase) (Q : Demand) : Prop where
  keeps : ∀ s, Q.keeps s ↔ s.Founded c
  unbased : TypesUnbased c
  has : ∀ {node base}, Q.types node base → c.tree.Has node
  declared : Asks.Declared c Q
  types : ∀ {node base}, Q.types node base → Asks.Closed c Q node base
  names : ∀ {identifier base}, Q.names identifier → c.tree.baseFor identifier = .ok (some base) →
    Q.types base none

/-- Types are found alike while further nodes are pending that have no type anyway. The induction is
on the nodes that are not pending. -/
theorem alongside_formType {Q : Demand} (closed : Q.Closed c) (firm : c.Firm)
    {extra : List NodeId} {guard : NodeId} (muted : Muted c Q extra guard s)
    (more : ∀ node, node ∈ p ↔ node ∈ q ∨ node ∈ extra) (guarded : guard ∈ q) {d e : Nat}
    (hd : 2 * c.tree.unvisited p + 2 ≤ d) (he : 2 * c.tree.unvisited q + 2 ≤ e) {t : Session}
    (retains : s.Retains c t) (founded : t.Founded c) {node : NodeId} {base : Option NodeId}
    (h : Q.types node base) :
    Alongside c p q t ((atDepth c d).formType c node base)
      ((atDepth c e).formType c node base) := by
  induction hn : c.tree.unvisited q using Nat.strongRecOn
    generalizing p q d e t node base with
  | ind n ih =>
  subst hn
  have types {d e : Nat} {node : NodeId} {base : Option NodeId} {u : Session}
      (hd : 2 * c.tree.unvisited p + 1 ≤ d) (he : 2 * c.tree.unvisited q + 1 ≤ e)
      (h : Q.types node base) (retains : s.Retains c u) (founded : u.Founded c) :
      Alongside c p q u ((atDepth c d).typeOf node base) ((atDepth c e).typeOf node base) := by
    obtain ⟨d, rfl⟩ : ∃ d', d = d' + 1 := ⟨d - 1, by omega⟩
    by_cases inRight : node ∈ q
    · obtain ⟨e, rfl⟩ : ∃ e', e = e' + 1 := ⟨e - 1, by omega⟩
      exact .done (findType_pending base ((more node).2 (.inl inRight)))
        (findType_pending base inRight) ((Session.naming c).refl u) founded
    by_cases inLeft : node ∈ p
    · have inExtra := ((more node).1 inLeft).resolve_left inRight
      exact .done (findType_pending base inLeft)
        (muted inExtra h inRight guarded he retains founded) ((Session.naming c).refl u) founded
    obtain ⟨e, rfl⟩ : ∃ e', e = e' + 1 := ⟨e - 1, by omega⟩
    have fewer := Tree.unvisited_cons_lt (closed.has h) inLeft
    have fewer' := Tree.unvisited_cons_lt (closed.has h) inRight
    refine findType_left inLeft (findType_right inRight ?_)
    refine ih _ fewer' ?_ (List.mem_cons_of_mem _ guarded) (by omega) (by omega)
      retains founded h rfl
    intro other
    simp [more other, or_assoc]
  obtain ⟨d, rfl⟩ : ∃ d', d = d' + 1 := ⟨d - 1, by omega⟩
  obtain ⟨e, rfl⟩ : ∃ e', e = e' + 1 := ⟨e - 1, by omega⟩
  have names {identifier : NodeId} {u : Session} (h : Q.names identifier) (retains : s.Retains c u)
      (founded : u.Founded c) : Alongside c p q u ((atDepth c (d + 1)).symbolsFor identifier)
        ((atDepth c (e + 1)).symbolsFor identifier) := by
    -- Between two questions about symbols there is one about a type, so none is asked here.
    have asks : Asks c Q.withoutNames fun k => k.findSymbols c identifier :=
      .findSymbols (closed.unbased.owners Q.withoutNames fun s => (closed.keeps s).1)
        fun base => closed.names h
    refine asks.alongside firm (fun s => (closed.keeps s).2) founded ?_ fun none => none.elim
    exact fun h r => types (by omega) (by omega) h ((Session.naming c).trans retains r)
  have asks : Asks c Q fun k => k.formType c node base :=
    .formType closed.declared (closed.unbased.owners Q fun s => (closed.keeps s).1) (closed.types h)
  refine asks.alongside firm (fun s => (closed.keeps s).2) founded ?_ ?_
  · exact fun h r => types (by omega) (by omega) h ((Session.naming c).trans retains r)
  · exact fun h r => names h ((Session.naming c).trans retains r)

end Inference

end PapyrusAnalysis
