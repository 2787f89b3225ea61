import PapyrusAnalysis.Proofs.Session.Termination

/-!
# Programs can be checked

A tree whose nodes come after their parts and whose ranges are in order makes a program, and each
script of the program, as well as the whole of it, can be checked. The phrases of the tree may be
put together in any way. The only fault that is left is that the numbers for symbols are used up; a
check meets it only in a crowded program.

## Main definitions

* `Completes`: a run that comes to a result.
-/

namespace PapyrusAnalysis

/-- A run comes to a result, or uses up the numbers for symbols because there are too many. -/
def Completes {α : Type} (crowded : Prop) (o : Outcome α) : Prop :=
  (∃ a, o = .ok a) ∨ o = .error .symbolsExhausted ∧ crowded

section

variable {α β : Type} {crowded : Prop} {o : Outcome α}

theorem Completes.bind {f : α → Outcome β} (h : Completes crowded o)
    (next : ∀ a, o = .ok a → Completes crowded (f a)) : Completes crowded (o >>= f) := by
  rcases h with ⟨a, rfl⟩ | ⟨rfl, full⟩
  · exact next a rfl
  · exact .inr ⟨rfl, full⟩

theorem Completes.imp {crowded' : Prop} (h : Completes crowded o) (weaker : crowded → crowded') :
    Completes crowded' o :=
  h.imp_right fun failed => ⟨failed.1, weaker failed.2⟩

theorem Completes.mapM {f : α → Outcome β} {xs : List α}
    (h : ∀ x ∈ xs, Completes crowded (f x)) : Completes crowded (xs.mapM f) := by
  induction xs with
  | nil => exact .inl ⟨[], rfl⟩
  | cons x xs ih =>
    rw [List.mapM_cons]
    refine (h x (by simp)).bind fun y _ => ?_
    exact (ih fun z hz => h z (by simp [hz])).bind fun ys _ => .inl ⟨y :: ys, rfl⟩

end

theorem Session.start_completes (c : Codebase) : Completes c.Crowded (Session.start c) := by
  rw [Session.start_eq]
  split
  · exact .inl ⟨_, rfl⟩
  · refine .inr ⟨rfl, ?_⟩
    unfold Codebase.Crowded
    omega

/-- A new session is crowded only if its codebase is. -/
theorem Session.crowded_of_start {c : Codebase} {s : Session} (started : Session.start c = .ok s)
    (crowded : s.Crowded c) : c.Crowded := by
  refine (Session.start_sound started).crowded_codebase ?_ crowded
  rw [Session.start_eq] at started
  split at started
  · cases started
    exact List.nil_subset _
  · cases started

/-- A validation that is coupled with itself comes to an end. -/
theorem Check.completes_of_coupled {α : Type} {c : Codebase} {p : Progress} {x : Check α}
    {post : α → α → Progress → Progress → Prop}
    (h : Coupled (Correspondence.strict c (p.session.demand c)).checking p p x x post) :
    Completes (p.session.Crowded c) (x p) := by
  cases h with
  | done left => exact .inl ⟨_, left⟩
  | fault left _ tolerated =>
    obtain ⟨rfl, full⟩ := tolerated
    exact .inr ⟨left, full⟩
  | exhausted right tolerated => exact .inr ⟨right, tolerated.2⟩

/-- Every part of a codebase can be validated in every session. -/
theorem Query.validate_completes {c : Codebase} {s : Session} {root : NodeId} (hc : c.Sound)
    (ordered : c.tree.Ordered) (sound : s.Sound c) (has : c.tree.Has root) :
    Completes (s.Crowded c) ((Query.validate c root).run' s) := by
  have law : (Correspondence.strict c (s.demand c)).Reporting c :=
    ⟨Correspondence.strict_lawful hc _, fun hn => .inl (ordered _ _ hn)⟩
  have run : (Query.validate c root).run' s = Query.validate c root s >>= fun r => .ok r.1 := rfl
  rw [run]
  rcases Query.Settles.of_coupled (law.validate ⟨rfl, sound, rfl⟩ has) with
    ⟨report, t, run, -⟩ | ⟨run, full⟩
  · exact .inl ⟨report, by rw [run]; rfl⟩
  · exact .inr ⟨by rw [run]; rfl, full⟩

namespace Program

variable {p : Program}

theorem check_completes (hc : p.codebase.Sound) (ordered : p.tree.Ordered)
    {script : ProgramScript} (has : p.tree.Has script.root) :
    Completes p.codebase.Crowded (p.check script) := by
  unfold check
  refine (Session.start_completes p.codebase).bind fun s started => ?_
  have validated := Query.validate_completes hc ordered (Session.start_sound started) has
  exact (validated.imp (Session.crowded_of_start started)).bind fun report _ => .inl ⟨_, rfl⟩

/-- A tree whose nodes come after their parts makes a program, unless it declares too many symbols.
The program can be checked, script by script and as a whole. -/
theorem ofTree_checks {t : Tree} (grown : t.Grown) (descending : t.Descending)
    (ordered : t.Ordered) (shielded : t.Shielded) :
    (∃ p, ofTree t = .ok p ∧ (∀ name, Completes p.codebase.Crowded (p.checkScript name)) ∧
      Completes p.codebase.Crowded p.checkAll) ∨ ofTree t = .error .symbolsExhausted := by
  rcases ofTree_cases (w := .strict descending ordered) descending (fun _ => trivial)
    fun root => grown.mem_roots.1 with ⟨p, run, tree, sound⟩ | ⟨e, run, rfl⟩
  · obtain rfl : p.tree = t := tree
    have hc : p.codebase.Sound := (Codebase.Bound.program run).sound grown descending shielded
    refine .inl ⟨p, run, fun name => ?_, ?_⟩
    · unfold checkScript
      cases hscript : p.script? name with
      | none => exact .inl ⟨none, rfl⟩
      | some script =>
        have has := (sound.scripts hscript).1
        exact (check_completes hc ordered has).bind fun report _ => .inl ⟨some report, rfl⟩
    · refine (Completes.mapM fun script hm => ?_).bind fun reports _ => .inl ⟨_, rfl⟩
      exact check_completes hc ordered (sound.roots script hm)
  · exact .inr run

/-- Phrases out of place: an argument that is none, an assignment without sides, an identifier that
is a part of two nodes, and a script whose header is a constant. -/
def oddForms : List Form :=
  [.identifier "A", .scriptHeader ⟨0⟩ none ∅, .identifier "f", .literal .none,
    .call ⟨2⟩ [⟨3⟩], .assignment none .assign none, .parameterList [⟨3⟩],
    .functionHeader (some ⟨3⟩) ⟨2⟩ ⟨6⟩ ∅, .function ⟨7⟩ [⟨4⟩, ⟨5⟩],
    .script ⟨1⟩ [⟨0⟩] [⟨8⟩, ⟨3⟩], .script ⟨3⟩ [] []]

theorem odd_program_checks : (Tree.ofForms oddForms).Descending ∧
    (Tree.ofForms oddForms).Ordered ∧ (Tree.ofForms oddForms).Shielded ∧
    ∃ p, ofTree (.ofForms oddForms) = .ok p ∧
      (∀ name, Completes p.codebase.Crowded (p.checkScript name)) ∧
      Completes p.codebase.Crowded p.checkAll := by
  have descending : (Tree.ofForms oddForms).Descending := by decide +kernel
  have ordered : (Tree.ofForms oddForms).Ordered := by decide +kernel
  have shielded : (Tree.ofForms oddForms).Shielded := by decide +kernel
  obtain ⟨p, run, -⟩ := exists_ok_of_any (o := ofTree (.ofForms oddForms)) (f := fun _ => true)
    (by decide +kernel)
  refine ⟨descending, ordered, shielded, ?_⟩
  rcases ofTree_checks (Tree.grown_ofForms (by decide)) descending ordered shielded with
    checks | exhausted
  · exact checks
  · cases run.symm.trans exhausted

end Program

end PapyrusAnalysis
