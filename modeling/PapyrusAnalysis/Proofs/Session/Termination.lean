import PapyrusAnalysis.Proofs.Session.Questions
import PapyrusAnalysis.Proofs.Validation

/-!
# Questions come to an end

A session corresponds to itself, so all that is known about questions in corresponding sessions
holds of a single one: a question about a node meets no fault but that the numbers for symbols are
used up in a crowded session, and the nodes that were pending are pending again when it has been
answered. Questions about names and types stay inside each other less than twice as deep as there
are nodes, since every second one of them makes a node pending. Any greater depth leads to the same
answers.

## Main definitions

* `Correspondence.same`: every session corresponds to itself.
* `Query.Settles`: a question that is answered.

## Main statements

* `Session.Arises.sound`: whatever has been asked, a session is sound.
-/

namespace PapyrusAnalysis

namespace Correspondence

variable {c : Codebase} {demand : Nat} {tolerates : Fault → Prop} {s : Session}

/-- A sound session with some demand for numbers corresponds to itself, and so do its types and
symbols. -/
def same (c : Codebase) (demand : Nat) (tolerates : Fault → Prop) : Correspondence where
  related s t := s = t ∧ s.Sound c ∧ s.demand c = demand
  types s _ a b := a = b ∧ ∃ info, s.types.get? a = some info
  symbols _ _ a b := a = b
  tolerates := tolerates

theorem same_found {a : Option TypeId}
    (h : ∀ type, a = some type → ∃ info, s.types.get? type = some info) :
    (same c demand tolerates).Found a a s s := by
  cases a with
  | none => exact .none
  | some type => exact .some ⟨rfl, h type rfl⟩

theorem same_lawful (hc : c.Sound)
    (crowded : SymbolId.limit < demand → tolerates .symbolsExhausted) :
    (same c demand tolerates).Lawful c where
  codebase := hc
  sound rel := rel.2.1
  pending rel := congrArg Session.pending rel.1
  withPending := by
    rintro s _ ⟨rfl, sound, needed⟩ nodes
    exact ⟨rfl, sound.withPending nodes, needed⟩
  types_mono := by
    rintro s t s' t' a _ ⟨rfl, info, hi⟩ e -
    exact ⟨rfl, info, e.types hi⟩
  symbols_mono h _ _ := h
  info := by
    rintro s _ a _ ⟨rfl, sound, -⟩ ⟨rfl, info, hi⟩
    refine ⟨info, info, hi, hi, rfl, rfl, rfl, ?_⟩
    cases hf : info.form with
    | intrinsic kind => exact .intrinsic kind
    | script table =>
      refine .script fun key => same_found fun type ht => ?_
      obtain ⟨other, ho, -⟩ := (sound.infos hi).structs hf ht
      exact ⟨other, ho⟩
    | struct script => exact .struct script script
    | array element => exact .array element
  inj := by
    rintro s t a _ a' _ - ⟨rfl, -⟩ ⟨rfl, -⟩
    rfl
  intrinsic := by
    rintro s _ ⟨rfl, sound, -⟩ kind
    obtain ⟨info, hi, -⟩ := sound.intrinsic kind
    exact ⟨rfl, info, hi⟩
  symbol := by
    rintro s _ a _ ⟨rfl, -⟩ rfl
    cases s.symbol? c a with
    | none => exact .none
    | some symbol => exact .some (.refl rfl fun _ _ => rfl)
  own _ _ := rfl
  scriptType := by
    rintro s _ a _ ⟨rfl, sound, needed⟩ rfl
    obtain ⟨answer, s', run, follows, sound', known, named⟩ := sound.scriptType hc a
    have needed' := (Session.demand_scriptType run).trans needed
    exact .done run run follows follows ⟨rfl, sound', needed'⟩ ⟨same_found known, named⟩
  arrayOf := by
    rintro s _ a _ x y ⟨rfl, sound, rfl⟩ ⟨rfl, -⟩ element hx hy
    cases hx.symm.trans hy
    have known := sound.elementKey element hx
    rcases sound.arrayOf x.qualifiedName with
      ⟨type, info, s', run, follows, sound', hi, needed⟩ | ⟨run, full⟩
    · refine .done run run follows follows ⟨rfl, sound', needed known⟩ (same_found ?_)
      rintro _ ⟨⟩
      exact ⟨info, hi⟩
    · exact .exhausted run (crowded (full known))

/-- Nothing but too great a demand for numbers can keep a question from being answered. -/
def strict (c : Codebase) (demand : Nat) : Correspondence :=
  same c demand fun e => e = .symbolsExhausted ∧ SymbolId.limit < demand

theorem strict_lawful (hc : c.Sound) (demand : Nat) : (strict c demand).Lawful c :=
  same_lawful hc fun full => ⟨rfl, full⟩

/-- Questions that end alike in every session are one question. -/
theorem eq_of_coupled {α : Type} {x y : Query α} {post post' : α → α → Session → Session → Prop}
    (h : Coupled (same c demand tolerates).coupling s s x y post)
    (h' : Coupled (same c demand tolerates).coupling s s y x post')
    (equal : ∀ a b s' t', post a b s' t' → a = b) : x s = y s := by
  cases h with
  | done left right _ _ rel holds => rw [left, right, equal _ _ _ _ holds, rel.1]
  | fault left right => rw [left, right]
  | exhausted right =>
    cases h' with
    | done left => cases right.symm.trans left
    | fault left right' => rw [left, right']
    | exhausted right' => rw [right, right']

theorem eq_of_found {a b : Option TypeId} {s t : Session}
    (h : (same c demand tolerates).Found a b s t) : a = b := by
  cases h with
  | none => rfl
  | some hab => rw [hab.1]

theorem eq_of_searched {x y : Search} {s t : Session}
    (h : (same c demand tolerates).Searched x y s t) : x = y := by
  obtain ⟨base, symbols⟩ := x
  obtain ⟨base', symbols'⟩ := y
  obtain ⟨rfl, listed⟩ : base = base' ∧ List.Forall₂ Eq symbols symbols' := h
  rw [List.forall₂_eq_eq_eq] at listed
  rw [listed]

end Correspondence

/-! ## Sessions that questions lead to -/

/-- A question is answered and leaves the pending nodes as they were, unless the session is too
crowded. -/
def Query.Settles {α : Type} (c : Codebase) (x : Query α) (s : Session) : Prop :=
  (∃ answer t, x s = .ok (answer, t) ∧ t.pending = s.pending) ∨
    x s = .error .symbolsExhausted ∧ s.Crowded c

section

variable {c : Codebase} {s t : Session} {node : NodeId}

open Correspondence

theorem Session.start_sound (h : Session.start c = .ok s) : s.Sound c := by
  rw [Session.start_eq] at h
  split at h
  · cases h
    exact Session.sound_initial c (by assumption)
  · cases h

/-- Sessions grow and stay sound. -/
def Session.sounding (c : Codebase) : Conduct Session where
  keeps := Sound c
  grows := Extends
  refl := .refl
  trans := .trans
  tolerates _ := True

theorem Session.steps_sounding (hc : c.Sound) : Query.Steps c (sounding c) where
  scriptType id := by
    intro s answer t sound run
    obtain ⟨_, _, run', follows, sound', -⟩ := sound.scriptType hc id
    cases run.symm.trans run'
    exact ⟨follows.grown, sound'⟩
  arrayOf element := by
    intro s answer t sound _ run
    rcases sound.arrayOf element with ⟨_, _, _, run', follows, sound', -⟩ | ⟨run', -⟩
    · cases run.symm.trans run'
      exact ⟨follows.grown, sound'⟩
    · cases run.symm.trans run'
  pending {s t node} sound := ⟨sound.withPending _, fun grown sound' =>
    ⟨⟨grown.types, grown.synthetic⟩, sound'.withPending _⟩⟩

/-- Whatever has been asked, a session is sound. -/
theorem Session.Arises.sound (hc : c.Sound) (arises : s.Arises c) : s.Sound c := by
  obtain ⟨first, started, leads⟩ := arises
  exact (leads.steady (steps_sounding hc) (start_sound started)).2

theorem Codebase.inference_eq (c : Codebase) :
    ∃ depth, c.inference = Inference.atDepth c (depth + 1) := by
  have := Inference.le_questionDepth c []
  refine ⟨c.questionDepth - 1, ?_⟩
  rw [Codebase.inference, Nat.sub_add_cancel (by omega)]

theorem Query.validate_foreign (foreign : ¬ c.tree.Has node) :
    Query.validate c node s = .error (.unknownNode node.index) := by
  have visit (k : Nat) (p : Progress) :
      Check.node c (Check.within c k) node p = .error (.unknownNode node.index) :=
    (bind_ok (x := modify _) rfl).trans
      (bind_error (liftM_error (Tree.form_eq_error foreign) _))
  have walk : (Check.tree c node).run { session := s } = .error (.unknownNode node.index) := by
    obtain ⟨limit, hlimit⟩ : ∃ limit, c.tree.visitLimit = limit + 1 :=
      ⟨c.tree.visitLimit - 1, (Nat.sub_add_cancel (c.tree.visitBound_pos _)).symm⟩
    rw [Check.tree, Check.within, Tree.walk, hlimit, Tree.walkStack]
    exact bind_error (visit _ _)
  exact (bind_ok (x := get) rfl).trans (bind_error (liftM_error walk s))

theorem Query.Settles.of_coupled {α : Type} {x : Query α} {post : α → α → Session → Session → Prop}
    (h : Coupled (strict c (s.demand c)).coupling s s x x post) : x.Settles c s := by
  cases h with
  | done left _ gs => exact .inl ⟨_, _, left, gs.pending⟩
  | fault left _ tolerated =>
    obtain ⟨rfl, full⟩ := tolerated
    exact .inr ⟨left, full⟩
  | exhausted right tolerated => exact .inr ⟨right, tolerated.2⟩

/-! ## Names and types -/

/-- Every depth that the nodes that are not pending allow for leads to the same types. -/
theorem Inference.typeOf_atDepth (hc : c.Sound) (sound : s.Sound c) (has : c.tree.Has node)
    {depth : Nat} (enough : 2 * c.tree.unvisited s.pending + 1 ≤ depth) :
    (atDepth c depth).typeOf node none s = Query.typeOf c node s := by
  have law := strict_lawful hc (s.demand c)
  have asked := le_questionDepth c s.pending
  exact eq_of_coupled
    (typesAgree_atDepth law enough (by omega) ⟨rfl, sound, rfl⟩ rfl has Tree.has_of_none)
    (typesAgree_atDepth law (by omega) enough ⟨rfl, sound, rfl⟩ rfl has Tree.has_of_none)
    fun _ _ _ _ => eq_of_found

theorem Inference.symbolsFor_atDepth (hc : c.Sound) (sound : s.Sound c) (has : c.tree.Has node)
    {depth : Nat} (enough : 2 * c.tree.unvisited s.pending + 2 ≤ depth) :
    (atDepth c depth).symbolsFor node s = Query.symbolsFor c node s := by
  have law := strict_lawful hc (s.demand c)
  have asked := le_questionDepth c s.pending
  exact eq_of_coupled (symbolsAgree_atDepth law enough asked ⟨rfl, sound, rfl⟩ rfl has)
    (symbolsAgree_atDepth law asked enough ⟨rfl, sound, rfl⟩ rfl has)
    fun _ _ _ _ => eq_of_searched

/-- In any session that arises, with any nodes pending, the type of every node and the symbols for
every node are found. More than twice as many questions inside each other as there are
nodes are never needed: any greater depth gives the same answers. -/
theorem names_and_types_settle (bound : c.Bound) (grown : c.tree.Grown)
    (descending : c.tree.Descending) (shielded : c.tree.Shielded) (arises : s.Arises c)
    (has : c.tree.Has node) (pending : List NodeId) :
    (Query.typeOf c node).Settles c { s with pending := pending } ∧
      (Query.symbolsFor c node).Settles c { s with pending := pending } ∧
      ∀ depth, 2 * c.tree.size + 2 ≤ depth →
        (Inference.atDepth c depth).typeOf node none { s with pending := pending } =
          Query.typeOf c node { s with pending := pending } ∧
        (Inference.atDepth c depth).symbolsFor node { s with pending := pending } =
          Query.symbolsFor c node { s with pending := pending } := by
  have hc := bound.sound grown descending shielded
  have law := strict_lawful hc ({ s with pending := pending }.demand c)
  have sound := (arises.sound hc).withPending pending
  refine ⟨.of_coupled (law.typeOf ⟨rfl, sound, rfl⟩ has),
    .of_coupled (law.symbolsFor ⟨rfl, sound, rfl⟩ has), ?_⟩
  intro depth enough
  have fewer : c.tree.unvisited pending ≤ c.tree.size := c.tree.unvisited_le pending
  constructor
  · exact Inference.typeOf_atDepth hc sound has (Nat.le_trans (by dsimp only; omega) enough)
  · exact Inference.symbolsFor_atDepth hc sound has (Nat.le_trans (by dsimp only; omega) enough)

/-- A script that extends itself, with two variables whose types depend on each other:

    ScriptName A Extends a
    Function F()
      var x = y
      var y = x
    EndFunction -/
def circularForms : List Form :=
  [.identifier "A", .identifier "a", .scriptHeader ⟨0⟩ (some ⟨1⟩) ∅,
    .identifier "F", .parameterList [], .functionHeader none ⟨3⟩ ⟨4⟩ ∅,
    .identifier "var", .typeName ⟨6⟩ false, .identifier "x",
    .identifier "y", .reference ⟨9⟩, .declaration ⟨7⟩ ⟨8⟩ (some ⟨10⟩),
    .identifier "var", .typeName ⟨12⟩ false, .identifier "y",
    .identifier "x", .reference ⟨15⟩, .declaration ⟨13⟩ ⟨14⟩ (some ⟨16⟩),
    .function ⟨5⟩ [⟨11⟩, ⟨17⟩], .script ⟨2⟩ [] [⟨18⟩]]

theorem circular_types_settle : ∃ (c : Codebase) (s : Session),
    c.tree = .ofForms circularForms ∧ c.Bound ∧ c.tree.Grown ∧ c.tree.Descending ∧
    c.tree.Shielded ∧ s.Arises c ∧ c.tree.Has ⟨10⟩ ∧
    (Query.typeOf c ⟨10⟩).Settles c { s with pending := [⟨17⟩] } ∧
    (Query.symbolsFor c ⟨10⟩).Settles c { s with pending := [⟨17⟩] } := by
  obtain ⟨p, run, fits⟩ := exists_ok_of_any (o := Program.ofTree (.ofForms circularForms))
    (f := fun p => p.tree = .ofForms circularForms ∧ p.symbols.base + p.symbols.size ≤ 4)
    (by decide +kernel)
  obtain ⟨tree, few⟩ := of_decide_eq_true fits
  have started : Session.start p.codebase = .ok (.initial p.codebase) := by
    rw [Session.start_eq, if_pos]
    exact Nat.le_trans (Nat.add_le_add_right few 7) (by decide)
  have same : p.codebase.tree = .ofForms circularForms := tree
  have descending : p.codebase.tree.Descending := same ▸ by decide +kernel
  have shielded : p.codebase.tree.Shielded := same ▸ by decide +kernel
  have grown : p.codebase.tree.Grown := same ▸ Tree.grown_ofForms (by decide)
  have has : p.codebase.tree.Has ⟨10⟩ := same ▸ by decide +kernel
  have arises : (Session.initial p.codebase).Arises p.codebase := ⟨_, started, .refl⟩
  obtain ⟨type, symbols, -⟩ := names_and_types_settle (.program run) grown descending shielded
    arises has [⟨17⟩]
  exact ⟨_, _, same, .program run, grown, descending, shielded, arises, has, type, symbols⟩

end

end PapyrusAnalysis
