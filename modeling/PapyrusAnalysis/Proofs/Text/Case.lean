import PapyrusAnalysis.TypeTable

/-!
# Lower case and the names of types

A colon has no case, so it survives in the lower-case form of a text. No intrinsic type has a colon
in its name, which keeps qualified names apart from them.
-/

namespace PapyrusAnalysis

namespace Text

theorem colon_mem_lowerFrom {before text : List Char} (h : ':' ∈ text) :
    ':' ∈ lowerFrom before text := by
  induction text generalizing before with
  | nil => cases h
  | cons c text ih =>
    rw [lowerFrom, List.mem_append]
    rcases List.mem_cons.1 h with rfl | h
    · rw [if_neg (by decide)]
      exact .inl (by decide)
    · exact .inr (ih h)

theorem colon_mem_lowercase {text : String} (h : ':' ∈ text.toList) :
    ':' ∈ (lowercase text).toList := by
  rw [lowercase, String.toList_ofList]
  exact colon_mem_lowerFrom h

theorem lowerChar_ne_nil (c : Char) : lowerChar c ≠ [] := by
  unfold lowerChar
  split
  · simp
  · split
    · simp
    · dsimp only
      split <;> simp

/-- Only the empty text is empty in lower case. -/
theorem isEmpty_lowercase (text : String) : (lowercase text).isEmpty = text.isEmpty := by
  have nonempty : ∀ chars : List Char, lowerFrom [] chars = [] ↔ chars = [] := by
    intro chars
    cases chars with
    | nil => simp [lowerFrom]
    | cons c rest =>
      simp only [lowerFrom, List.append_eq_nil_iff, reduceCtorEq, iff_false, not_and]
      intro none
      split at none
      · cases none
      · exact absurd none (lowerChar_ne_nil c)
  rw [Bool.eq_iff_iff, String.isEmpty_iff, String.isEmpty_iff, ← String.toList_inj,
    ← String.toList_inj, lowercase, String.toList_ofList]
  simpa using nonempty text.toList

/-- Only the empty text is the same as the empty text in any case. -/
theorem eq_empty_of_sameFolded {text : String} (h : sameFolded "" text = true) : text = "" := by
  have none : text.toList.map Char.toLower = [] := (sameFolded_iff.1 h).symm
  exact String.toList_inj.1 (List.map_eq_nil_iff.1 none)

end Text

theorem Intrinsic.ofName?_eq_none {name : String} (h : ':' ∈ name.toList) :
    Intrinsic.ofName? name = none := by
  unfold Intrinsic.ofName?
  split
  case h_10 => rfl
  all_goals exact absurd h (by decide)

/-- A qualified name with a colon is not that of an intrinsic type. -/
theorem TypeTable.intrinsic?_qualified (above name : String) :
    TypeTable.intrinsic? (above ++ ":" ++ name) = none := by
  have colon : ':' ∈ (above ++ ":" ++ name).toList := by simp
  rw [TypeTable.intrinsic?, Intrinsic.ofName?_eq_none (Text.colon_mem_lowercase colon)]
  rfl

end PapyrusAnalysis
