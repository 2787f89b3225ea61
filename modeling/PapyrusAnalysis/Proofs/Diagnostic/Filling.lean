import Mathlib.Data.List.Basic
import PapyrusAnalysis.Diagnostic.Message

/-!
# Filled templates

The arguments of a message are put into its template one after another, so what an argument brings
along is searched for the places of the later ones. Without braces in the arguments and in the plain
text of the template this makes no difference: every place gets its argument, as if all were put in
at once.

## Main definitions

* `Template.Piece`: plain text, or the place of an argument.
* `Template.written`: the template that is put together from some pieces.

## Main statements

* `Template.replaceAll_written`: one argument goes to all of its places and nowhere else.
* `Template.fill_written`: all arguments go to their places.
-/

namespace PapyrusAnalysis

namespace Template

/-- A text without braces. -/
def Braceless (text : String) : Prop := '{' ∉ text.toList ∧ '}' ∉ text.toList

instance (text : String) : Decidable (Braceless text) := inferInstanceAs (Decidable (_ ∧ _))

/-! ## Places -/

theorem toList_placeholder (index : Nat) :
    (placeholder index).toList = '{' :: (Nat.toDigits 10 index ++ ['}']) := by
  change (String.singleton '{' ++ index.repr ++ String.singleton '}').toList = _
  simp [Nat.toList_repr]

/-- A number is written without braces. -/
theorem not_mem_toDigits {c : Char} (h : c.isDigit = false) (index : Nat) :
    c ∉ Nat.toDigits 10 index := by
  intro hc
  have := Nat.isDigit_of_mem_toDigits (by decide) (by decide) hc
  simp [this] at h

theorem toDigits_injective {i j : Nat} (h : Nat.toDigits 10 i = Nat.toDigits 10 j) : i = j := by
  calc i = Nat.ofDigitChars 10 (Nat.toDigits 10 i) 0 := Nat.ofDigitChars_ten_toDigits.symm
    _ = Nat.ofDigitChars 10 (Nat.toDigits 10 j) 0 := by rw [h]
    _ = j := Nat.ofDigitChars_ten_toDigits

/-- Two texts that go on with the same character, which is in neither of them, are equal. -/
theorem eq_of_prefix_append {c : Char} {a b rest : List Char} (ha : c ∉ a) (hb : c ∉ b)
    (h : a ++ [c] <+: b ++ c :: rest) : a = b := by
  induction a generalizing b with
  | nil => cases b <;> grind
  | cons d a ih => cases b <;> grind

/-- The mark of one place does not begin like that of another. -/
theorem placeholder_prefix_iff {i j : Nat} {rest : List Char} :
    (placeholder i).toList <+: (placeholder j).toList ++ rest ↔ i = j := by
  constructor
  · intro h
    rw [toList_placeholder, toList_placeholder, List.cons_append, List.cons_prefix_cons,
      List.append_assoc] at h
    have brace : ('}' : Char).isDigit = false := by decide
    exact toDigits_injective
      (eq_of_prefix_append (not_mem_toDigits brace i) (not_mem_toDigits brace j) h.2)
  · rintro rfl
    exact List.prefix_append _ _

/-! ## Pieces -/

/-- A piece of a template: plain text, or the place of an argument. -/
inductive Piece where
  | plain (text : String)
  | place (index : Nat)
deriving DecidableEq, Repr

namespace Piece

/-- The piece as a template has it. -/
def written : Piece → String
  | plain text => text
  | place index => placeholder index

/-- The piece with the argument for its place. A place without one stays as it is written. -/
def filled (arguments : List String) : Piece → String
  | plain text => text
  | place index => arguments[index]?.getD (placeholder index)

/-- What becomes of the piece when the arguments go to the places from number `first` on. -/
def filledFrom (first : Nat) (arguments : List String) : Piece → String
  | plain text => text
  | place index =>
    if index < first then placeholder index else arguments[index - first]?.getD (placeholder index)

/-- What becomes of the piece when a single place gets its argument. -/
def settle (index : Nat) (argument : String) (piece : Piece) : Piece :=
  if piece = place index then plain argument else piece

/-- Plain text has no braces. -/
def Clean : Piece → Prop
  | plain text => Braceless text
  | place _ => True

instance : DecidablePred Clean
  | plain text => inferInstanceAs (Decidable (Braceless text))
  | place _ => inferInstanceAs (Decidable True)

theorem Clean.settle {piece : Piece} (h : piece.Clean) {argument : String}
    (given : Braceless argument) (index : Nat) : (piece.settle index argument).Clean := by
  unfold Piece.settle
  split
  · exact given
  · exact h

/-- Putting an argument into a text changes a piece at its beginning, and then the rest. -/
theorem replaceFrom_written {piece : Piece} (clean : piece.Clean) (index : Nat) (argument : String)
    (rest : List Char) :
    Text.replaceFrom (placeholder index).toList argument.toList 0 (piece.written.toList ++ rest) =
      (piece.settle index argument).written.toList ++
        Text.replaceFrom (placeholder index).toList argument.toList 0 rest := by
  cases piece with
  | plain text =>
    rw [toList_placeholder]
    exact Text.replaceFrom_append clean.1 rest
  | place other =>
    by_cases same : other = index
    · subst same
      simp only [settle, written, if_pos, toList_placeholder]
      exact Text.replaceFrom_pattern rest
    · -- The mark stays: the pattern neither stands at its brace nor begins behind it.
      have unchanged : settle index argument (place other) = place other :=
        if_neg fun e => same (Piece.place.inj e)
      have apart : ¬ (placeholder index).toList <+: (placeholder other).toList ++ rest :=
        fun h => same (placeholder_prefix_iff.1 h).symm
      have digits : '{' ∉ Nat.toDigits 10 other ++ ['}'] := by
        simp [not_mem_toDigits]
      rw [unchanged, written]
      rw [toList_placeholder other, List.cons_append] at apart ⊢
      rw [Text.replaceFrom_cons apart, toList_placeholder index, Text.replaceFrom_append digits,
        List.cons_append]

theorem filledFrom_settle (index : Nat) (argument : String) (rest : List String) (piece : Piece) :
    (piece.settle index argument).filledFrom (index + 1) rest =
      piece.filledFrom index (argument :: rest) := by
  cases piece with
  | plain text => rfl
  | place other =>
    unfold settle
    grind [filledFrom]

end Piece

/-! ## Templates -/

/-- The template that is put together from some pieces. -/
def written (pieces : List Piece) : String := String.join (pieces.map Piece.written)

/-- One argument goes to all of its places and nowhere else. -/
theorem replaceAll_written {pieces : List Piece} (clean : ∀ piece ∈ pieces, piece.Clean)
    (index : Nat) (argument : String) :
    Text.replaceAll (written pieces) (placeholder index) argument =
      written (pieces.map (Piece.settle index argument)) := by
  rw [← String.toList_inj, Text.replaceAll, String.toList_ofList, written, written]
  induction pieces with
  | nil => rfl
  | cons piece pieces ih =>
    have rest := ih fun p hp => clean p (by simp [hp])
    simp only [List.map_cons, String.join_cons, String.toList_append]
    rw [Piece.replaceFrom_written (clean piece (by simp)), rest]

/-- The arguments go to their places one after another. -/
theorem fillFrom_written {pieces : List Piece} {arguments : List String}
    (clean : ∀ piece ∈ pieces, piece.Clean) (given : ∀ argument ∈ arguments, Braceless argument)
    (first : Nat) : fillFrom first (written pieces) arguments =
      String.join (pieces.map (Piece.filledFrom first arguments)) := by
  induction arguments generalizing first pieces with
  | nil =>
    have unfilled (piece : Piece) : piece.filledFrom first [] = piece.written := by
      cases piece <;> simp [Piece.filledFrom, Piece.written]
    rw [fillFrom, written, funext unfilled]
  | cons argument arguments ih =>
    have settled : ∀ piece ∈ pieces.map (Piece.settle first argument), piece.Clean := by
      intro _ hp
      obtain ⟨piece, inside, rfl⟩ := List.mem_map.1 hp
      exact (clean piece inside).settle (given argument (by simp)) first
    calc fillFrom first (written pieces) (argument :: arguments)
        = fillFrom (first + 1) (written (pieces.map (Piece.settle first argument))) arguments := by
          rw [fillFrom, replaceAll_written clean]
      _ = String.join ((pieces.map (Piece.settle first argument)).map
            (Piece.filledFrom (first + 1) arguments)) :=
          ih settled (fun a ha => given a (by simp [ha])) (first + 1)
      _ = String.join (pieces.map (Piece.filledFrom first (argument :: arguments))) := by
          simp [Function.comp_def, Piece.filledFrom_settle]

/-- Filling a template puts every argument into all of its places at once. -/
theorem fill_written (pieces : List Piece) (arguments : List String)
    (clean : ∀ piece ∈ pieces, piece.Clean) (given : ∀ argument ∈ arguments, Braceless argument) :
    fill (written pieces) arguments = String.join (pieces.map (Piece.filled arguments)) := by
  have same (piece : Piece) : piece.filledFrom 0 arguments = piece.filled arguments := by
    cases piece <;> simp [Piece.filledFrom, Piece.filled]
  rw [fill, fillFrom_written clean given, funext same]

/-- A place before that of an earlier argument, one that comes twice, and one without an argument
whose number begins like another. -/
def shuffled : List Piece :=
  [.place 1, .plain " before ", .place 0, .plain ", not ", .place 10, .place 1]

theorem shuffled_filled : (∀ piece ∈ shuffled, piece.Clean) ∧
    (∀ argument ∈ ["left", "right"], Braceless argument) ∧
    written shuffled = "{1} before {0}, not {10}{1}" ∧
    fill (written shuffled) ["left", "right"] = "right before left, not {10}right" :=
  ⟨by decide, by decide, by decide,
    (fill_written shuffled ["left", "right"] (by decide) (by decide)).trans (by decide)⟩

end Template

end PapyrusAnalysis
