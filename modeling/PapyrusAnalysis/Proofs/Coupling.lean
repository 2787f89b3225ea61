import PapyrusAnalysis.Proofs.Run

/-!
# Runs side by side

A question changes the state in which it is asked, so what it answers may depend on what was asked
before. To compare two runs of a question, a `Coupling` says which of their states correspond.
Coupled runs take the same steps, end in corresponding states and give corresponding answers. A run
coupled with itself is one that meets no fault but those that the coupling tolerates.

The rules below follow the way questions are put together: steps one after another, reading and
writing the state, and loops over lists.

## Main definitions

* `Coupling`: which states of two runs correspond, and how a state may grow.
* `Coupled`: two runs that end alike.
-/

namespace PapyrusAnalysis

variable {σ α β γ δ : Type}

/-- How the states of two runs correspond. -/
structure Coupling (σ : Type) where
  related : σ → σ → Prop
  /-- The states that can follow a state in a run. -/
  grows : σ → σ → Prop
  refl : ∀ s, grows s s
  trans : ∀ {s t u}, grows s t → grows t u → grows s u
  /-- The faults that both runs may meet. -/
  tolerates : Fault → Prop

/-- Two runs end alike: with corresponding answers in corresponding states, or with a fault that is
tolerated. Nothing is said of the first run when the second one uses up the numbers for symbols and
that is tolerated. -/
inductive Coupled (C : Coupling σ) (s t : σ) (x : StateT σ Outcome α) (y : StateT σ Outcome β)
    (post : α → β → σ → σ → Prop) : Prop where
  | done {a : α} {b : β} {s' t' : σ} (left : x s = .ok (a, s')) (right : y t = .ok (b, t'))
      (growsLeft : C.grows s s') (growsRight : C.grows t t') (related : C.related s' t')
      (holds : post a b s' t')
  | fault {e : Fault} (left : x s = .error e) (right : y t = .error e) (tolerated : C.tolerates e)
  | exhausted (right : y t = .error .symbolsExhausted) (tolerated : C.tolerates .symbolsExhausted)

namespace Coupled

variable {C : Coupling σ} {s t : σ} {x : StateT σ Outcome α} {y : StateT σ Outcome β}
  {post : α → β → σ → σ → Prop}

theorem imp {post' : α → β → σ → σ → Prop} (h : Coupled C s t x y post)
    (weaken : ∀ a b s' t', C.grows s s' → C.grows t t' → C.related s' t' → post a b s' t' →
      post' a b s' t') : Coupled C s t x y post' := by
  cases h with
  | done left right gs gt rel holds =>
    exact .done left right gs gt rel (weaken _ _ _ _ gs gt rel holds)
  | fault left right tolerated => exact .fault left right tolerated
  | exhausted right tolerated => exact .exhausted right tolerated

theorem pure {a : α} {b : β} (rel : C.related s t) (h : post a b s t) :
    Coupled C s t (Pure.pure a) (Pure.pure b) post :=
  .done rfl rfl (C.refl s) (C.refl t) rel h

/-- Runs are coupled if their first steps are, and whatever follows corresponding answers is. -/
theorem bind {f : α → StateT σ Outcome γ} {g : β → StateT σ Outcome δ}
    {last : γ → δ → σ → σ → Prop} (h : Coupled C s t x y post)
    (next : ∀ a b s' t', C.grows s s' → C.grows t t' → C.related s' t' → post a b s' t' →
      Coupled C s' t' (f a) (g b) last) :
    Coupled C s t (x >>= f) (y >>= g) last := by
  cases h with
  | done left right gs gt rel holds =>
    cases next _ _ _ _ gs gt rel holds with
    | done left' right' gs' gt' rel' holds' =>
      exact .done ((bind_ok left).trans left') ((bind_ok right).trans right')
        (C.trans gs gs') (C.trans gt gt') rel' holds'
    | fault left' right' tolerated =>
      exact .fault ((bind_ok left).trans left') ((bind_ok right).trans right') tolerated
    | exhausted right' tolerated => exact .exhausted ((bind_ok right).trans right') tolerated
  | fault left right tolerated => exact .fault (bind_error left) (bind_error right) tolerated
  | exhausted right tolerated => exact .exhausted (bind_error right) tolerated

/-- Steps with known answers that leave their states as they are. -/
theorem known {a : α} {b : β} {f : α → StateT σ Outcome γ} {g : β → StateT σ Outcome δ}
    {last : γ → δ → σ → σ → Prop} (left : x s = .ok (a, s)) (right : y t = .ok (b, t))
    (h : Coupled C s t (f a) (g b) last) : Coupled C s t (x >>= f) (y >>= g) last := by
  cases h with
  | done left' right' gs gt rel holds =>
    exact .done ((bind_ok left).trans left') ((bind_ok right).trans right') gs gt rel holds
  | fault left' right' tolerated =>
    exact .fault ((bind_ok left).trans left') ((bind_ok right).trans right') tolerated
  | exhausted right' tolerated => exact .exhausted ((bind_ok right).trans right') tolerated

/-- A step that needs no state and has a value. -/
theorem lift {o : Outcome γ} {c : γ} {f : γ → StateT σ Outcome α} {g : γ → StateT σ Outcome β}
    (ho : o = .ok c) (h : Coupled C s t (f c) (g c) post) :
    Coupled C s t (liftM o >>= f) (liftM o >>= g) post :=
  known (liftM_ok ho s) (liftM_ok ho t) h

theorem get {f : σ → StateT σ Outcome α} {g : σ → StateT σ Outcome β}
    (h : Coupled C s t (f s) (g t) post) :
    Coupled C s t (MonadState.get >>= f) (MonadState.get >>= g) post :=
  known rfl rfl h

/-! ## Loops -/

section Loops

variable {R : σ → σ → α → β → Prop}

theorem forM {f : α → StateT σ Outcome PUnit} {g : β → StateT σ Outcome PUnit} {xs : List α}
    {ys : List β}
    (mono : ∀ {s t s' t'}, C.grows s s' → C.grows t t' → C.related s' t' →
      ∀ {a b}, R s t a b → R s' t' a b)
    (rel : C.related s t) (h : List.Forall₂ (R s t) xs ys)
    (body : ∀ {a b s' t'}, a ∈ xs → C.grows s s' → C.grows t t' → C.related s' t' → R s' t' a b →
      Coupled C s' t' (f a) (g b) fun _ _ _ _ => True) :
    Coupled C s t (xs.forM f) (ys.forM g) fun _ _ _ _ => True := by
  induction xs generalizing ys s t with
  | nil => cases h; exact .pure rel trivial
  | cons a xs ih =>
    cases h with
    | cons head rest =>
    refine .bind (body (by simp) (C.refl s) (C.refl t) rel head) ?_
    intro _ _ s' t' gs gt rel' _
    exact ih rel' (rest.imp fun _ _ r => mono gs gt rel' r) fun ha gs' gt' =>
      body (by simp [ha]) (C.trans gs gs') (C.trans gt gt')

theorem mapM {Q : σ → σ → γ → δ → Prop} {f : α → StateT σ Outcome γ}
    {g : β → StateT σ Outcome δ} {xs : List α} {ys : List β}
    (mono : ∀ {s t s' t'}, C.grows s s' → C.grows t t' → C.related s' t' →
      ∀ {a b}, R s t a b → R s' t' a b)
    (monoQ : ∀ {s t s' t'}, C.grows s s' → C.grows t t' → C.related s' t' →
      ∀ {c d}, Q s t c d → Q s' t' c d)
    (rel : C.related s t) (h : List.Forall₂ (R s t) xs ys)
    (body : ∀ {a b s' t'}, a ∈ xs → C.grows s s' → C.grows t t' → C.related s' t' → R s' t' a b →
      Coupled C s' t' (f a) (g b) fun c d s t => Q s t c d) :
    Coupled C s t (xs.mapM f) (ys.mapM g) fun cs ds s t => List.Forall₂ (Q s t) cs ds := by
  induction xs generalizing ys s t with
  | nil => cases h; exact .pure rel .nil
  | cons a xs ih =>
    cases h with
    | cons head rest =>
    rw [List.mapM_cons, List.mapM_cons]
    refine .bind (body (by simp) (C.refl s) (C.refl t) rel head) ?_
    intro c d s' t' gs gt rel' hcd
    refine .bind (ih rel' (rest.imp fun _ _ r => mono gs gt rel' r) fun ha gs' gt' =>
      body (by simp [ha]) (C.trans gs gs') (C.trans gt gt')) ?_
    intro cs ds s'' t'' gs' gt' rel'' hs
    exact .pure rel'' (.cons (monoQ gs' gt' rel'' hcd) hs)

end Loops

end Coupled

end PapyrusAnalysis
