/-!
# Replacing text

`replaceAll` exchanges every occurrence of a pattern, from left to right and without overlaps, for
another text.
-/

namespace PapyrusAnalysis.Text

/-- Leaves out the first `skip` characters, then exchanges each occurrence of `pattern`. -/
def replaceFrom (pattern replacement : List Char) : Nat → List Char → List Char
  | _, [] => []
  | skip + 1, _ :: text => replaceFrom pattern replacement skip text
  | 0, c :: text =>
    if pattern.isPrefixOf (c :: text) then
      replacement ++ replaceFrom pattern replacement (pattern.length - 1) text
    else
      c :: replaceFrom pattern replacement 0 text

/-- Exchanges each occurrence of a pattern that is not empty for `replacement`. -/
def replaceAll (text pattern replacement : String) : String :=
  .ofList (replaceFrom pattern.toList replacement.toList 0 text.toList)

theorem replaceFrom_eq_drop (pattern replacement : List Char) (skip : Nat) (text : List Char) :
    replaceFrom pattern replacement skip text =
      replaceFrom pattern replacement 0 (text.drop skip) := by
  induction skip generalizing text with
  | zero => rfl
  | succ skip ih => cases text with
    | nil => rfl
    | cons c text => simpa [replaceFrom] using ih text

variable {c : Char} {pattern replacement : List Char}

/-- Text without the first character of the pattern stays as it is. -/
theorem replaceFrom_append {before : List Char} (absent : c ∉ before) (text : List Char) :
    replaceFrom (c :: pattern) replacement 0 (before ++ text) =
      before ++ replaceFrom (c :: pattern) replacement 0 text := by
  induction before with
  | nil => rfl
  | cons d before ih =>
    obtain ⟨other, absent⟩ := not_or.1 (absent ∘ List.mem_cons.2)
    simp [replaceFrom, List.isPrefixOf, other, ih absent]

/-- The pattern is exchanged where it stands. -/
theorem replaceFrom_pattern (text : List Char) :
    replaceFrom (c :: pattern) replacement 0 (c :: pattern ++ text) =
      replacement ++ replaceFrom (c :: pattern) replacement 0 text := by
  have stands : (c :: pattern).isPrefixOf (c :: (pattern ++ text)) := by
    simp [List.isPrefixOf_iff_prefix]
  rw [List.cons_append, replaceFrom, if_pos stands, replaceFrom_eq_drop]
  simp

/-- Where the pattern does not stand, the first character stays. -/
theorem replaceFrom_cons {d : Char} {text : List Char} (h : ¬ pattern <+: d :: text) :
    replaceFrom pattern replacement 0 (d :: text) =
      d :: replaceFrom pattern replacement 0 text := by
  rw [replaceFrom, if_neg (by rwa [List.isPrefixOf_iff_prefix])]

end PapyrusAnalysis.Text
