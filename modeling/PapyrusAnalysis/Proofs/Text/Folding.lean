import PapyrusAnalysis.Text.Lowercase

/-!
# Two notions of case

The lower-case form of a text does not depend on the case of the letters `A` to `Z`. So texts that
differ only in these have one lower-case form. The converse holds for texts of ASCII characters, and
fails for others: `É` and `é` have one lower-case form.

## Main results

* `Text.lowercase_eq_of_sameFolded`: equality up to ASCII case is the finer notion.
* `Text.lowercase_eq_iff_sameFolded`: on ASCII texts both notions are the same.
-/

namespace PapyrusAnalysis.Text

/-- A function makes no difference between a character and its ASCII lower case if it makes none
for the letters `A` to `Z`. -/
theorem apply_toLower {α : Type} (f : Char → α)
    (letters : ∀ n < 26, f (Char.ofNat (65 + n)).toLower = f (Char.ofNat (65 + n))) (c : Char) :
    f c.toLower = f c := by
  by_cases h : c.val ≥ 'A'.val ∧ c.val ≤ 'Z'.val
  · have first : 65 ≤ c.toNat := h.1
    have last : c.toNat ≤ 90 := h.2
    have same := letters (c.toNat - 65) (by omega)
    rwa [Nat.add_sub_cancel' first, Char.ofNat_toNat] at same
  · have itself : c.toLower = c := dif_neg h
    rw [itself]

theorem isCased_toLower (c : Char) : isCased c.toLower = isCased c :=
  apply_toLower isCased (by decide +kernel) c

theorem isCaseIgnorable_toLower (c : Char) : isCaseIgnorable c.toLower = isCaseIgnorable c :=
  apply_toLower isCaseIgnorable (by decide +kernel) c

theorem lowerChar_toLower (c : Char) : lowerChar c.toLower = lowerChar c :=
  apply_toLower lowerChar (by decide +kernel) c

theorem toLower_eq_sigma (c : Char) : c.toLower = 'Σ' ↔ c = 'Σ' := by
  have same := apply_toLower (fun c => decide (c = 'Σ')) (by decide +kernel) c
  simpa using same

theorem meetsCased_map (text : List Char) :
    meetsCased (text.map Char.toLower) = meetsCased text := by
  have ignorable : isCaseIgnorable ∘ Char.toLower = isCaseIgnorable :=
    funext isCaseIgnorable_toLower
  simp only [meetsCased, List.dropWhile_map, ignorable]
  cases text.dropWhile isCaseIgnorable with
  | nil => rfl
  | cons c rest => exact isCased_toLower c

/-- The case of ASCII letters makes no difference to the lower-case form, nor does that of what
precedes a text. -/
theorem lowerFrom_map (before text : List Char) :
    lowerFrom (before.map Char.toLower) (text.map Char.toLower) = lowerFrom before text := by
  induction text generalizing before with
  | nil => rfl
  | cons c text ih =>
    have rest := ih (c :: before)
    simp only [List.map_cons, lowerFrom, meetsCased_map, lowerChar_toLower,
      toLower_eq_sigma] at rest ⊢
    rw [rest]

theorem lowercase_eq (text : String) : lowercase text = .ofList (lowerFrom [] (folded text)) :=
  congrArg String.ofList (lowerFrom_map [] text.toList).symm

/-- Texts that differ only in the case of ASCII letters have one lower-case form. -/
theorem lowercase_eq_of_sameFolded {a b : String} (h : sameFolded a b) :
    lowercase a = lowercase b := by
  rw [lowercase_eq, lowercase_eq, sameFolded_iff.1 h]

theorem lowerFrom_ascii {text : List Char} (ascii : ∀ c ∈ text, c.toNat < 128)
    (before : List Char) : lowerFrom before text = text.map Char.toLower := by
  induction text generalizing before with
  | nil => rfl
  | cons c text ih =>
    have small : c.toNat < 128 := ascii c List.mem_cons_self
    have other : c ≠ 'Σ' := by
      rintro rfl
      exact absurd small (by decide)
    rw [lowerFrom, if_neg other, lowerChar, if_pos small,
      ih (fun d hd => ascii d (List.mem_cons_of_mem _ hd))]
    rfl

/-- ASCII texts have one lower-case form only if they differ in case alone. -/
theorem lowercase_eq_iff_sameFolded {a b : String} (asciiA : ∀ c ∈ a.toList, c.toNat < 128)
    (asciiB : ∀ c ∈ b.toList, c.toNat < 128) : lowercase a = lowercase b ↔ sameFolded a b := by
  refine ⟨fun h => sameFolded_iff.2 ?_, lowercase_eq_of_sameFolded⟩
  have same : lowerFrom [] a.toList = lowerFrom [] b.toList := String.ofList_injective h
  rwa [lowerFrom_ascii asciiA, lowerFrom_ascii asciiB] at same

end PapyrusAnalysis.Text
