import Mathlib.Data.List.Forall2
import Mathlib.Data.List.ReduceOption
import PapyrusAnalysis.Fault

/-!
# Runs

A step of the analysis changes a state and gives an answer, or meets a fault. A `Conduct` says what
the steps of one kind hold on to: a property that every state has, how one state may follow
another, and which faults can be met. The rules below follow the way steps are put together.

## Main definitions

* `Conduct`: what steps hold on to.
* `Runs`: a step that behaves and gives an answer with some property.
-/

theorem Option.Rel.imp {α β : Type} {R Q : α → β → Prop} {a : Option α} {b : Option β}
    (h : Option.Rel R a b) (weaken : ∀ a b, R a b → Q a b) : Option.Rel Q a b := by
  cases h with
  | some h => exact .some (weaken _ _ h)
  | none => exact .none

namespace PapyrusAnalysis

variable {σ α β γ : Type}

theorem exists_left_of_mem {R : α → β → Prop} {xs : List α} {ys : List β}
    (h : List.Forall₂ R xs ys) {y : β} (hy : y ∈ ys) : ∃ x ∈ xs, R x y := by
  induction h with
  | nil => cases hy
  | cons head _ ih =>
    rcases List.mem_cons.1 hy with rfl | hy
    · exact ⟨_, by simp, head⟩
    · obtain ⟨x, hx, hr⟩ := ih hy
      exact ⟨x, by simp [hx], hr⟩

theorem exists_right_of_mem {R : α → β → Prop} {xs : List α} {ys : List β}
    (h : List.Forall₂ R xs ys) {x : α} (hx : x ∈ xs) : ∃ y ∈ ys, R x y := by
  have flipped : List.Forall₂ (fun y x => R x y) ys xs := h.flip
  exact exists_left_of_mem flipped hx

theorem eq_map_of_forall₂ {f : α → β} {xs : List α} {ys : List β}
    (h : List.Forall₂ (fun a b => b = f a) xs ys) : ys = xs.map f := by
  induction h with
  | nil => rfl
  | cons same _ ih => rw [same, ih, List.map_cons]

/-! ## Steps one after another -/

theorem bind_ok {x : StateT σ Outcome α} {f : α → StateT σ Outcome β} {s s' : σ} {a : α}
    (h : x s = .ok (a, s')) : (x >>= f) s = f a s' := by
  change (x s >>= fun p => f p.1 p.2) = f a s'
  rw [h]
  rfl

theorem bind_error {x : StateT σ Outcome α} {f : α → StateT σ Outcome β} {s : σ} {e : Fault}
    (h : x s = .error e) : (x >>= f) s = .error e := by
  change (x s >>= fun p => f p.1 p.2) = .error e
  rw [h]
  rfl

/-- A sequence that ends well consists of two runs that do. -/
theorem bind_eq_ok {x : StateT σ Outcome α} {f : α → StateT σ Outcome β} {s u : σ} {b : β}
    (h : (x >>= f) s = .ok (b, u)) : ∃ a t, x s = .ok (a, t) ∧ f a t = .ok (b, u) := by
  cases hx : x s with
  | error e => rw [bind_error hx] at h; cases h
  | ok r => exact ⟨r.1, r.2, rfl, (bind_ok hx).symm.trans h⟩

theorem liftM_ok {o : Outcome α} {a : α} (h : o = .ok a) (s : σ) :
    (liftM o : StateT σ Outcome α) s = .ok (a, s) := by
  rw [h]
  rfl

theorem liftM_bind_ok {o : Outcome α} {a : α} (h : o = .ok a) (f : α → StateT σ Outcome β) :
    liftM o >>= f = f a := by
  rw [h]
  rfl

theorem liftM_error {o : Outcome α} {e : Fault} (h : o = .error e) (s : σ) :
    (liftM o : StateT σ Outcome α) s = .error e := by
  rw [h]
  rfl

/-- Steps with known answers that leave the state as it is. -/
theorem mapM_ok {xs : List α} {f : α → StateT σ Outcome β} {g : α → β} {s : σ}
    (h : ∀ a ∈ xs, f a s = .ok (g a, s)) : xs.mapM f s = .ok (xs.map g, s) := by
  induction xs with
  | nil => rfl
  | cons a xs ih =>
    rw [List.mapM_cons, bind_ok (h a (by simp)), bind_ok (ih fun b hb => h b (by simp [hb]))]
    rfl

theorem exists_of_bind_eq_ok {o : Outcome α} {f : α → Outcome β} {b : β} (h : o >>= f = .ok b) :
    ∃ a, o = .ok a ∧ f a = .ok b := by
  cases o with
  | error e => cases h
  | ok a => exact ⟨a, rfl, h⟩

/-- Each answer of several steps is that of one of them. -/
theorem exists_of_mem_mapM {f : α → Outcome β} {xs : List α} {bs : List β} {b : β}
    (h : xs.mapM f = .ok bs) (hb : b ∈ bs) : ∃ a ∈ xs, f a = .ok b := by
  induction xs generalizing bs with
  | nil =>
    cases h
    cases hb
  | cons a xs ih =>
    rw [List.mapM_cons] at h
    obtain ⟨first, run, rest⟩ := exists_of_bind_eq_ok h
    obtain ⟨others, more, done⟩ := exists_of_bind_eq_ok rest
    cases done
    rcases List.mem_cons.1 hb with rfl | hb
    · exact ⟨a, by simp, run⟩
    · obtain ⟨a', ha, run'⟩ := ih more hb
      exact ⟨a', by simp [ha], run'⟩

/-- What a run comes to can be read off when it is carried out. -/
theorem exists_ok_of_any {o : Outcome α} {f : α → Bool} (h : o.toOption.any f = true) :
    ∃ a, o = .ok a ∧ f a = true := by
  cases o with
  | error e => cases h
  | ok a => exact ⟨a, rfl, h⟩

/-! ## Steps that behave -/

/-- What the steps of one kind hold on to. -/
structure Conduct (σ : Type) where
  /-- What is true of every state. -/
  keeps : σ → Prop
  /-- Which states can follow a state. -/
  grows : σ → σ → Prop
  refl : ∀ s, grows s s
  trans : ∀ {s t u}, grows s t → grows t u → grows s u
  /-- The faults that can be met. -/
  tolerates : Fault → Prop

/-- A step behaves: it ends with an answer and a state that has grown, or with a fault that can be
met. -/
inductive Runs (C : Conduct σ) (s : σ) (x : StateT σ Outcome α) (post : α → σ → Prop) : Prop where
  | done {a : α} {s' : σ} (run : x s = .ok (a, s')) (grows : C.grows s s') (kept : C.keeps s')
      (holds : post a s')
  | fault {e : Fault} (run : x s = .error e) (tolerated : C.tolerates e)

namespace Runs

variable {C : Conduct σ} {s : σ} {x : StateT σ Outcome α} {post : α → σ → Prop}

theorem imp {post' : α → σ → Prop} (h : Runs C s x post)
    (weaken : ∀ a s', C.grows s s' → C.keeps s' → post a s' → post' a s') : Runs C s x post' := by
  cases h with
  | done run grows kept holds => exact .done run grows kept (weaken _ _ grows kept holds)
  | fault run tolerated => exact .fault run tolerated

theorem pure {a : α} (kept : C.keeps s) (h : post a s) : Runs C s (Pure.pure a) post :=
  .done rfl (C.refl s) kept h

theorem bind {f : α → StateT σ Outcome β} {last : β → σ → Prop} (h : Runs C s x post)
    (next : ∀ a s', C.grows s s' → C.keeps s' → post a s' → Runs C s' (f a) last) :
    Runs C s (x >>= f) last := by
  cases h with
  | done run grows kept holds =>
    cases next _ _ grows kept holds with
    | done run' grows' kept' holds' =>
      exact .done ((bind_ok run).trans run') (C.trans grows grows') kept' holds'
    | fault run' tolerated => exact .fault ((bind_ok run).trans run') tolerated
  | fault run tolerated => exact .fault (bind_error run) tolerated

/-- A step with a known answer that leaves the state as it is. -/
theorem known {a : α} {f : α → StateT σ Outcome β} {last : β → σ → Prop} (run : x s = .ok (a, s))
    (h : Runs C s (f a) last) : Runs C s (x >>= f) last := by
  cases h with
  | done run' grows kept holds => exact .done ((bind_ok run).trans run') grows kept holds
  | fault run' tolerated => exact .fault ((bind_ok run).trans run') tolerated

/-- A step that needs no state and has a value. -/
theorem lift {o : Outcome γ} {c : γ} {f : γ → StateT σ Outcome α} (ho : o = .ok c)
    (h : Runs C s (f c) post) : Runs C s (liftM o >>= f) post :=
  known (liftM_ok ho s) h

theorem get {f : σ → StateT σ Outcome α} (h : Runs C s (f s) post) :
    Runs C s (MonadState.get >>= f) post := by
  cases h with
  | done run grows kept holds => exact .done run grows kept holds
  | fault run tolerated => exact .fault run tolerated

/-- What a step that ends well does. -/
theorem of_ok {a : α} {s' : σ} (h : Runs C s x post) (run : x s = .ok (a, s')) :
    C.grows s s' ∧ C.keeps s' ∧ post a s' := by
  cases h with
  | done run' grows kept holds =>
    rw [run] at run'
    cases run'
    exact ⟨grows, kept, holds⟩
  | fault run' _ => rw [run] at run'; cases run'

/-- Where every fault can be met, only what a step does when it ends well counts. -/
theorem of_forall_ok (tolerant : ∀ e, C.tolerates e)
    (h : ∀ a s', x s = .ok (a, s') → C.grows s s' ∧ C.keeps s' ∧ post a s') : Runs C s x post := by
  cases run : x s with
  | error e => exact .fault run (tolerant e)
  | ok r =>
    obtain ⟨grows, kept, holds⟩ := h r.1 r.2 run
    exact .done run grows kept holds

/-! ## Loops

A loop leaves a trace: the part of the state that `view` shows gets longer by what the step for each
element adds to it. -/

section Loops

variable {τ : Type} {xs : List α} (view : σ → List τ) (adds : α → List τ)

theorem forM {f : α → StateT σ Outcome PUnit} (kept : C.keeps s)
    (body : ∀ a ∈ xs, ∀ s', C.grows s s' → C.keeps s' →
      Runs C s' (f a) fun _ s'' => view s'' = view s' ++ adds a) :
    Runs C s (xs.forM f) fun _ s' => view s' = view s ++ xs.flatMap adds := by
  induction xs generalizing s with
  | nil => exact .pure kept (by simp)
  | cons a xs ih =>
    refine .bind (body a (by simp) s (C.refl s) kept) ?_
    intro _ s' grows kept' added
    refine (ih kept' fun b hb s'' grows' => body b (by simp [hb]) s'' (C.trans grows grows')).imp ?_
    intro _ s'' _ _ rest
    rw [rest, added, List.flatMap_cons, List.append_assoc]

theorem mapM {Q : σ → α → β → Prop} {f : α → StateT σ Outcome β}
    (mono : ∀ {s s' a b}, C.grows s s' → C.keeps s' → Q s a b → Q s' a b) (kept : C.keeps s)
    (body : ∀ a ∈ xs, ∀ s', C.grows s s' → C.keeps s' →
      Runs C s' (f a) fun b s'' => Q s'' a b ∧ view s'' = view s' ++ adds a) :
    Runs C s (xs.mapM f) fun bs s' =>
      List.Forall₂ (Q s') xs bs ∧ view s' = view s ++ xs.flatMap adds := by
  induction xs generalizing s with
  | nil => exact .pure kept ⟨.nil, by simp⟩
  | cons a xs ih =>
    rw [List.mapM_cons]
    refine .bind (body a (by simp) s (C.refl s) kept) ?_
    rintro b s' grows kept' ⟨hb, added⟩
    refine .bind (ih kept' fun c hc s'' grows' =>
      body c (by simp [hc]) s'' (C.trans grows grows')) ?_
    rintro bs s'' grows' kept'' ⟨hbs, rest⟩
    refine .pure kept'' ⟨.cons (mono grows' kept'' hb) hbs, ?_⟩
    rw [rest, added, List.flatMap_cons, List.append_assoc]

end Loops

end Runs

end PapyrusAnalysis
