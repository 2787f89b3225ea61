import PapyrusAnalysis.Proofs.Session.Inheritance

/-!
# The hierarchy of a script

A script gives the name of the script that it extends. Following these names leads up from script to
script. Nothing keeps a script from extending itself, or one that inherits from it, so the way up
can run into a circle; it ends before the first script that would come twice. The hierarchy of a
script type is this way: of all ways up without repetition it is the longest, and the scripts on it
are all those that can be reached. Nothing is asked of the tree of the codebase.

## Main definitions

* `Session.ExtendsTo`: the name that a script gives for the one it extends leads to a script.
* `Climbs`, `ClimbsToEnd`: a sequence without repetition along a relation, and the longest one.

## Main statements

* `Session.hierarchy_climbs_to_end`: the hierarchy of a script type is the longest way up.
-/

namespace PapyrusAnalysis

/-! ## Ways without repetition -/

/-- A sequence that goes from each element to a related one and has no repetition. -/
structure Climbs {α : Type} (R : α → α → Prop) (origin : α) (path : List α) : Prop where
  starts : path.head? = some origin
  linked : path.IsChain R
  nodup : path.Nodup

/-- A sequence without repetition that goes as far as any does. It ends where nothing follows, or
only what is on it already. -/
structure ClimbsToEnd {α : Type} (R : α → α → Prop) (origin : α) (path : List α) : Prop
    extends Climbs R origin path where
  stops : ∀ last ∈ path.getLast?, ∀ next, R last next → next ∈ path
  longest : ∀ other, Climbs R origin other → other <+: path

namespace Codebase.Ascends

variable {c : Codebase} {script : SymbolId} {seen ancestors path : List SymbolId}

theorem linked (h : c.Ascends script seen ancestors) :
    ancestors.IsChain fun a b => c.extended? a = some b := by
  induction h with
  | stop _ => exact .nil
  | alone _ _ => exact .singleton _
  | step _ extending rest ih =>
    cases rest with
    | stop _ => exact .singleton _
    | alone _ _ => exact .cons_cons extending ih
    | step _ _ _ => exact .cons_cons extending ih

/-- A way up that meets nothing that has been seen is a part of the way up to the end. -/
theorem longest (h : c.Ascends script seen ancestors)
    (linked : (script :: path).IsChain fun a b => c.extended? a = some b)
    (nodup : (script :: path).Nodup) (unseen : ∀ a ∈ script :: path, a ∉ seen) :
    script :: path <+: ancestors := by
  induction h generalizing path with
  | stop again => exact absurd again (unseen _ (by simp))
  | alone _ last =>
    cases path with
    | nil => exact List.prefix_rfl
    | cons b path =>
      rw [List.isChain_cons_cons, last] at linked
      cases linked.1
  | step _ extending _ ih =>
    refine List.cons_prefix_cons.2 ⟨rfl, ?_⟩
    cases path with
    | nil => exact List.nil_prefix
    | cons b path =>
      obtain ⟨first, linked⟩ := List.isChain_cons_cons.1 linked
      cases extending.symm.trans first
      obtain ⟨new, nodup⟩ := List.nodup_cons.1 nodup
      refine ih linked nodup fun a ha => ?_
      rw [List.mem_cons, not_or]
      exact ⟨fun same => new (same ▸ ha), unseen a (List.mem_cons_of_mem _ ha)⟩

theorem climbsToEnd (h : c.Ascends script [] ancestors) :
    ClimbsToEnd (fun a b => c.extended? a = some b) script ancestors where
  starts := by
    cases h with
    | stop again => cases again
    | alone _ _ => rfl
    | step _ _ _ => rfl
  linked := h.linked
  nodup := h.nodup
  stops last hlast next extending := by
    simpa using h.closed last (List.mem_of_mem_getLast? hlast) next extending
  longest other climbs := by
    cases other with
    | nil => cases climbs.starts
    | cons first rest =>
      cases climbs.starts
      exact h.longest climbs.linked climbs.nodup (by simp)

end Codebase.Ascends

/-! ## The hierarchy -/

namespace Session

variable {c : Codebase} {s t : Session} {script a b : SymbolId} {type : TypeId}

/-- In a session, the name that a script gives for the one that it extends leads to the type of a
script. -/
def ExtendsTo (c : Codebase) (s : Session) (a b : SymbolId) : Prop :=
  ∃ symbol name type t, c.symbols.get? a = some symbol ∧ symbol.extendedScript = some name ∧
    Query.resolveType c name [] s = .ok (some type, t) ∧ t.ScriptAt b type

/-- Which script a script extends does not depend on the session. -/
theorem Settled.extendsTo_iff (settled : s.Settled c) (firm : c.Firm) :
    s.ExtendsTo c a b ↔ c.extended? a = some b := by
  constructor
  · rintro ⟨symbol, name, type, t, hs, hname, run, scriptAt⟩
    obtain ⟨-, -, named, unnamed⟩ := (Query.runs_resolveFullName firm settled name).of_ok run
    rw [Codebase.extended?_eq hs, hname, Option.bind_some]
    cases found : c.scriptNamed name with
    | none =>
      obtain ⟨info, hi, notScript, -⟩ := unnamed found type rfl
      obtain ⟨info', hi', isScript, -⟩ := scriptAt
      cases hi.symm.trans hi'
      cases notScript.symm.trans isScript
    | some other =>
      obtain ⟨type', same, scriptAt'⟩ := named other found
      cases same
      rw [scriptAt'.symbol_unique scriptAt]
  · intro extending
    obtain ⟨name, hname, found⟩ := Option.bind_eq_some_iff.1 extending
    obtain ⟨symbol, hs, hname⟩ := Option.bind_eq_some_iff.1 hname
    obtain ⟨answer, t, run, -, -, named, -⟩ :=
      Query.exists_ok_of_settling (Query.runs_resolveFullName firm settled name)
    obtain ⟨type, rfl, scriptAt⟩ := named b found
    exact ⟨symbol, name, type, t, hs, hname, run, scriptAt⟩

theorem Settled.extendsTo_eq (settled : s.Settled c) (firm : c.Firm) :
    s.ExtendsTo c = fun a b => c.extended? a = some b := by
  funext a b
  exact propext (settled.extendsTo_iff firm)

theorem Settled.inherits_eq (settled : s.Settled c) (firm : c.Firm) :
    Relation.ReflTransGen (s.ExtendsTo c) = c.Inherits := by
  rw [settled.extendsTo_eq firm]
  rfl

/-- The hierarchy of a script type consists of the types of the scripts on the longest way up from
its script, and these are all the scripts that can be reached. -/
theorem hierarchy_climbs_to_end (bound : c.Bound) (apart : c.ScriptsApart)
    (arises : s.Arises c) (scriptAt : s.ScriptAt script type) :
    ∃ types t scripts, Query.scriptHierarchy c type s = .ok (types, t) ∧
      List.Forall₂ (fun x a => t.ScriptAt a x) types scripts ∧
      ClimbsToEnd (s.ExtendsTo c) script scripts ∧
      ∀ a, a ∈ scripts ↔ Relation.ReflTransGen (s.ExtendsTo c) script a := by
  have firm := bound.firm apart
  have settled := arises.settled firm
  obtain ⟨types, t, run, -, -, scripts, all, ascends⟩ :=
    Query.exists_ok_of_settling (Query.runs_scriptHierarchy firm settled scriptAt)
  refine ⟨types, t, scripts, run, all, ?_, fun a => ?_⟩
  · rw [settled.extendsTo_eq firm]
    exact ascends.climbsToEnd
  · rw [settled.inherits_eq firm]
    exact ascends.mem_iff a

/-- A way that leads into a circle:

    ScriptName A Extends B

    ScriptName B Extends C

    ScriptName C Extends B -/
def circleForms : List Form :=
  [.identifier "A", .identifier "B", .scriptHeader ⟨0⟩ (some ⟨1⟩) ∅, .script ⟨2⟩ [] [],
    .identifier "B", .identifier "C", .scriptHeader ⟨4⟩ (some ⟨5⟩) ∅, .script ⟨6⟩ [] [],
    .identifier "C", .identifier "B", .scriptHeader ⟨8⟩ (some ⟨9⟩) ∅, .script ⟨10⟩ [] []]

theorem circle_climbed_once : ∃ (c : Codebase) (s : Session) (type : TypeId),
    c.tree = .ofForms circleForms ∧ c.Bound ∧ c.ScriptsApart ∧ s.Arises c ∧
    s.ScriptAt ⟨0⟩ type ∧ ∃ types t scripts, Query.scriptHierarchy c type s = .ok (types, t) ∧
      types.length = 3 ∧ List.Forall₂ (fun x a => t.ScriptAt a x) types scripts ∧
      ClimbsToEnd (s.ExtendsTo c) ⟨0⟩ scripts := by
  obtain ⟨p, run, fits⟩ := exists_ok_of_any (o := Program.ofTree (.ofForms circleForms))
    (f := fun p => decide (p.tree = .ofForms circleForms ∧ p.codebase.Unambiguous) &&
      (start p.codebase).toOption.any fun first =>
        ((Question.resolveType "A" []).ask p.codebase first).toOption.any
          fun (r : Unit × Session) => (r.2.types.get? ⟨7⟩).any fun (info : TypeInfo) =>
            decide (info.isScript ∧ info.symbol = ⟨0⟩) &&
              (Query.scriptHierarchy p.codebase ⟨7⟩ r.2).toOption.any
                fun (q : List TypeId × Session) => decide (q.1.length = 3))
    (by decide +kernel)
  obtain ⟨settings, fits⟩ := Bool.and_eq_true_iff.1 fits
  obtain ⟨tree, unambiguous⟩ := of_decide_eq_true settings
  obtain ⟨first, started, fits⟩ := exists_ok_of_any fits
  obtain ⟨⟨_, s⟩, asked, fits⟩ := exists_ok_of_any fits
  obtain ⟨info, hi, fits⟩ := (Option.any_eq_true _ _).1 fits
  obtain ⟨ofScript, fits⟩ := Bool.and_eq_true_iff.1 fits
  obtain ⟨⟨found, u⟩, climbed, three⟩ := exists_ok_of_any fits
  obtain ⟨isScript, symbol⟩ := of_decide_eq_true ofScript
  have bound : p.codebase.Bound := .program run
  have apart := Codebase.Unambiguous.scriptsApart unambiguous
  have arises : s.Arises p.codebase := ⟨first, started, .ask _ .refl asked⟩
  have scriptAt : s.ScriptAt ⟨0⟩ ⟨7⟩ := ⟨info, hi, isScript, symbol⟩
  obtain ⟨types, t, scripts, ran, all, climbs, -⟩ :=
    hierarchy_climbs_to_end bound apart arises scriptAt
  cases climbed.symm.trans ran
  exact ⟨p.codebase, s, ⟨7⟩, tree, bound, apart, arises, scriptAt, found, u, scripts, climbed,
    of_decide_eq_true three, all, climbs⟩

end Session

end PapyrusAnalysis
