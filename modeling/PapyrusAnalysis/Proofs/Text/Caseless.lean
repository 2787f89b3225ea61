import Mathlib.Data.List.TakeWhile
import PapyrusAnalysis.Proofs.Text.Case
import PapyrusAnalysis.Proofs.Text.Folding
import PapyrusAnalysis.QualifiedName

/-!
# Texts without regard to case

In lower case, a capital sigma becomes `ς` at the end of a word and `σ` elsewhere. So the lower-case
form of a qualified name need not be put together from those of its parts. It is if the two small
sigmas are taken for one letter.

A colon has no case, and no other character has one in its lower-case form. Hence a qualified name
is cut at the same place in any case.

## Main definitions

* `Text.caseless`: the lower-case form of a text with one small sigma.

## Main statements

* `Text.caseless_append`: the form of a text is that of its parts.
* `QualifiedName.parse_qualified`: a name is cut where it was joined.
-/

namespace PapyrusAnalysis

namespace Text

def joinSigmas (c : Char) : Char := if c = 'ς' then 'σ' else c

/-- The lower-case form of a text, in which the two small sigmas are one letter. -/
def caseless (text : String) : List Char := (lowercase text).toList.map joinSigmas

theorem caseless_congr {a b : String} (h : lowercase a = lowercase b) :
    caseless a = caseless b := by
  rw [caseless, caseless, h]

/-- Where a word ends makes no difference any more. -/
theorem map_joinSigmas_lowerFrom (before text : List Char) :
    (lowerFrom before text).map joinSigmas =
      text.flatMap fun c => (lowerChar c).map joinSigmas := by
  induction text generalizing before with
  | nil => rfl
  | cons c text ih =>
    rw [lowerFrom, List.map_append, ih, List.flatMap_cons]
    congr 1
    split
    · rename_i sigma
      have small : (lowerChar 'Σ').map joinSigmas = ['σ'] := by decide
      rw [sigma, small]
      split <;> rfl
    · rfl

theorem caseless_append (a b : String) : caseless (a ++ b) = caseless a ++ caseless b := by
  simp only [caseless, lowercase, String.toList_ofList, map_joinSigmas_lowerFrom,
    String.toList_append, List.flatMap_append]

/-- What is joined by a colon has the same form if its parts have. -/
theorem caseless_qualified {above above' name name' : String}
    (container : lowercase above = lowercase above') (same : lowercase name = lowercase name') :
    caseless (above ++ ":" ++ name) = caseless (above' ++ ":" ++ name') := by
  simp only [caseless_append, caseless_congr container, caseless_congr same]

/-! ## Colons -/

/-- No character outside of ASCII has a lower-case form as low as a colon. -/
theorem colon_lt_of_caseShift :
    ∀ shift ∈ caseShifts, (58 : Int) < shift.first + shift.distance := by
  decide +kernel

theorem toNat_ofNat_cases (n : Nat) : (Char.ofNat n).toNat = n ∨ (Char.ofNat n).toNat = 0 := by
  by_cases valid : n.isValidChar
  · have made : Char.ofNat n = Char.ofNatAux n valid := dif_pos valid
    exact .inl ((congrArg Char.toNat made).trans (UInt32.toNat_ofNatLT ..))
  · exact .inr (congrArg Char.toNat (dif_neg valid))

theorem eq_colon_of_mem_lowerChar {c : Char} (h : ':' ∈ lowerChar c) : c = ':' := by
  unfold lowerChar at h
  split at h
  · have same := apply_toLower (fun c => decide (c = ':')) (by decide +kernel) c
    rw [← List.mem_singleton.1 h] at same
    simpa using same
  split at h
  · exact absurd h (by decide)
  dsimp only at h
  split at h
  · rename_i shift found
    have inside := List.find?_some found
    have far := colon_lt_of_caseShift shift (List.mem_of_find?_eq_some found)
    simp only [Bool.and_eq_true, decide_eq_true_eq] at inside
    have value : 58 = (Char.ofNat (c.toNat + shift.distance).toNat).toNat :=
      congrArg Char.toNat (List.mem_singleton.1 h)
    have either := toNat_ofNat_cases (c.toNat + shift.distance).toNat
    omega
  · exact (List.mem_singleton.1 h).symm

theorem colon_mem_of_lowerFrom {before text : List Char} (h : ':' ∈ lowerFrom before text) :
    ':' ∈ text := by
  induction text generalizing before with
  | nil => exact h
  | cons c text ih =>
    rw [lowerFrom, List.mem_append] at h
    rcases h with h | h
    · split at h
      · split at h <;> exact absurd h (by decide)
      · rw [eq_colon_of_mem_lowerChar h]
        exact List.mem_cons_self
    · exact List.mem_cons_of_mem c (ih h)

/-- Texts with the same lower-case form both have a colon, or neither has. -/
theorem colon_mem_congr {a b : String} (h : lowercase a = lowercase b) :
    ':' ∈ a.toList ↔ ':' ∈ b.toList := by
  have kept (text : String) : ':' ∈ (lowercase text).toList ↔ ':' ∈ text.toList := by
    refine ⟨fun inside => ?_, colon_mem_lowercase⟩
    rw [lowercase, String.toList_ofList] at inside
    exact colon_mem_of_lowerFrom inside
  rw [← kept a, h, kept]

end Text

namespace QualifiedName

/-- A name is cut where it was joined, unless there is a colon behind. -/
theorem parse_qualified {container name : String} (h : ':' ∉ name.toList) :
    parse (container ++ ":" ++ name) = ⟨container, name⟩ := by
  have plain : ∀ c ∈ name.toList.reverse, (c != ':') = true := by
    intro c hc
    simp only [bne_iff_ne, ne_eq]
    rintro rfl
    exact h (List.mem_reverse.1 hc)
  have backwards : (container ++ ":" ++ name).toList.reverse =
      name.toList.reverse ++ ':' :: container.toList.reverse := by
    simp
  simp only [parse, backwards, List.dropWhile_append_of_pos plain,
    List.takeWhile_append_of_pos plain]
  simp

/-- A name with a namespace is its parts joined, and there is no colon behind. -/
theorem eq_qualified {fullName : String} (h : (parse fullName).container.isEmpty = false) :
    fullName = (parse fullName).container ++ ":" ++ (parse fullName).name ∧
      ':' ∉ (parse fullName).name.toList := by
  unfold parse at h ⊢
  dsimp only at h ⊢
  split at h
  · cases h
  · rename_i colon container cut
    have split := List.takeWhile_append_dropWhile (p := (· != ':')) (l := fullName.toList.reverse)
    have isColon : colon = ':' := by
      have head := List.head?_dropWhile_not (· != ':') fullName.toList.reverse
      rw [cut] at head
      simpa using head
    rw [cut, isColon] at split
    refine ⟨?_, ?_⟩
    · apply String.toList_inj.1
      have forwards := congrArg List.reverse split
      simpa [cut] using forwards.symm
    · rw [String.toList_ofList, List.mem_reverse]
      intro inside
      simpa using List.mem_takeWhile_imp inside

end QualifiedName

end PapyrusAnalysis
