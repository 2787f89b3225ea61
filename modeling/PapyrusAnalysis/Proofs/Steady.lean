import PapyrusAnalysis.Proofs.Run

/-!
# Activities that keep to a conduct

An activity is steady if it holds on to what a conduct says wherever it starts and ends well. Which
faults it may meet plays no part.

## Main definitions

* `Steady`: an activity that keeps to a conduct.
* `Yields`: an activity whose answers have a property.
-/

namespace PapyrusAnalysis

variable {σ α β : Type}

theorem liftM_eq_ok {o : Outcome α} {s t : σ} {a : α}
    (h : (liftM o : StateT σ Outcome α) s = .ok (a, t)) : o = .ok a ∧ t = s := by
  cases o with
  | error e => cases h
  | ok b =>
    cases h
    exact ⟨rfl, rfl⟩

/-- An activity that leads from a state as a conduct wants it to one that follows it in the same
conduct, if it ends well. -/
def Steady (C : Conduct σ) (x : StateT σ Outcome α) : Prop :=
  ∀ ⦃s a s'⦄, C.keeps s → x s = .ok (a, s') → C.grows s s' ∧ C.keeps s'

namespace Steady

variable {C : Conduct σ} {x : StateT σ Outcome α}

theorem pure (a : α) : Steady C (Pure.pure a) := by
  rintro s _ _ kept ⟨⟩
  exact ⟨C.refl s, kept⟩

theorem bind {f : α → StateT σ Outcome β} (h : Steady C x) (next : ∀ a, Steady C (f a)) :
    Steady C (x >>= f) := by
  intro s b u kept run
  obtain ⟨a, t, first, rest⟩ := bind_eq_ok run
  obtain ⟨grows, kept'⟩ := h kept first
  obtain ⟨grows', kept''⟩ := next a kept' rest
  exact ⟨C.trans grows grows', kept''⟩

/-- Reading leaves the state as it is. -/
theorem get : Steady C (MonadState.get : StateT σ Outcome σ) := by
  rintro s _ _ kept ⟨⟩
  exact ⟨C.refl s, kept⟩

theorem lift (o : Outcome α) : Steady C (liftM o : StateT σ Outcome α) := by
  intro s a s' kept run
  obtain ⟨-, rfl⟩ := liftM_eq_ok run
  exact ⟨C.refl _, kept⟩

theorem throw (e : Fault) : Steady C (MonadExcept.throw e : StateT σ Outcome α) := by
  rintro s _ _ _ ⟨⟩

theorem forM {xs : List α} {f : α → StateT σ Outcome PUnit} (h : ∀ a ∈ xs, Steady C (f a)) :
    Steady C (xs.forM f) := by
  induction xs with
  | nil => exact .pure _
  | cons a xs ih => exact .bind (h a (by simp)) fun _ => ih fun b hb => h b (by simp [hb])

/-- An activity that holds on to more is steady all the same. -/
theorem weaken {D : Conduct σ} (h : Steady C x) (keeps : ∀ {s}, D.keeps s ↔ C.keeps s)
    (grows : ∀ {s s'}, C.grows s s' → D.grows s s') : Steady D x := by
  intro s a s' kept run
  obtain ⟨grown, kept'⟩ := h (keeps.1 kept) run
  exact ⟨grows grown, keeps.2 kept'⟩

end Steady

/-- An activity whose answers have a property. -/
def Yields (x : StateT σ Outcome α) (P : α → Prop) : Prop :=
  ∀ ⦃s a s'⦄, x s = .ok (a, s') → P a

namespace Yields

variable {x : StateT σ Outcome α} {P : α → Prop}

theorem pure {a : α} (h : P a) : Yields (Pure.pure a : StateT σ Outcome α) P := by
  rintro s _ _ ⟨⟩
  exact h

theorem bind {Q : β → Prop} {f : α → StateT σ Outcome β} (next : ∀ a, Yields (f a) Q) :
    Yields (x >>= f) Q := by
  intro s b u run
  obtain ⟨a, t, -, rest⟩ := bind_eq_ok run
  exact next a rest

end Yields

end PapyrusAnalysis
