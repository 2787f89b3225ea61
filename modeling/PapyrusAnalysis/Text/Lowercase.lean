import PapyrusAnalysis.Text.CaseShift
import PapyrusAnalysis.Text.CaseIgnorable
import PapyrusAnalysis.Text.Cased

/-!
# Case in names

Names that differ only in case name the same thing. Two notions of "only in case" are in use.
`lowercase` is the full Unicode lower-case form of a text and serves as a key for tables.
`sameFolded` compares two texts and regards the case of the letters `A` to `Z` alone.

## Main definitions

* `lowercase`: the lower-case form of a text.
* `sameFolded`: equality up to the case of ASCII letters.
-/

namespace PapyrusAnalysis.Text

/-- A character of a property that has a case, or that case rules look past. -/
def isCased (c : Char) : Bool := inRanges casedRanges c

@[inherit_doc isCased]
def isCaseIgnorable (c : Char) : Bool := inRanges caseIgnorableRanges c

/-- The lower-case form of a character on its own. Only `İ` has one of two characters. -/
def lowerChar (c : Char) : List Char :=
  if c.toNat < 128 then [c.toLower]
  else if c = 'İ' then ['i', '\u0307']
  else
    let shift? := caseShifts.find? fun s =>
      s.first ≤ c.toNat && c.toNat ≤ s.last && (c.toNat - s.first) % s.stride == 0
    match shift? with
    | some s => [Char.ofNat (c.toNat + s.distance).toNat]
    | none => [c]

/-- Whether the first character that case rules do not look past has a case. -/
def meetsCased (text : List Char) : Bool :=
  match text.dropWhile isCaseIgnorable with
  | [] => false
  | c :: _ => isCased c

/-- The lower-case form of a text, of which `before` is what precedes it, last character first.
A capital sigma becomes `ς` at the end of a word and `σ` elsewhere. -/
def lowerFrom (before : List Char) : List Char → List Char
  | [] => []
  | c :: text =>
    let lowered :=
      if c = 'Σ' then [if meetsCased before && !meetsCased text then 'ς' else 'σ']
      else lowerChar c
    lowered ++ lowerFrom (c :: before) text

/-- The full Unicode lower-case form of a text. -/
def lowercase (text : String) : String := .ofList (lowerFrom [] text.toList)

/-- The text with the letters `A` to `Z` in lower case. -/
def folded (text : String) : List Char := text.toList.map Char.toLower

/-- Equality up to the case of the letters `A` to `Z`. -/
def sameFolded (a b : String) : Bool := folded a == folded b

theorem sameFolded_iff {a b : String} : sameFolded a b ↔ folded a = folded b := by
  simp [sameFolded]

@[simp] theorem sameFolded_refl (a : String) : sameFolded a a := by simp [sameFolded]

end PapyrusAnalysis.Text
