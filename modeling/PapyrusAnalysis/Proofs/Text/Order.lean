import Mathlib.Data.List.Lex

/-!
# The order of texts

Texts are ordered by their characters. Their UTF-8 encodings are ordered in the same way: of two
characters the one that comes first has the encoding that comes first, and the two encodings differ
in some byte, whatever follows them.

## Main definitions

* `Text.bytes`: the UTF-8 encoding of a text.
-/

namespace PapyrusAnalysis.Text

/-- The UTF-8 encoding of a text. -/
def bytes (s : String) : List UInt8 := s.toUTF8.data.toList

theorem bytes_eq (s : String) : bytes s = s.toList.flatMap String.utf8EncodeChar := by
  have encoded : s.toUTF8 = s.toList.utf8Encode := by
    rw [String.toUTF8_eq_toByteArray, ← String.toByteArray_ofList, String.ofList_toList]
  rw [bytes, encoded, List.utf8Encode, List.data_toByteArray]

variable {a b : Nat} {l l' : List UInt8}

theorem byte_cons_lt (ha : a < 256) (hb : b < 256) (h : a < b ∨ a = b ∧ l < l') :
    UInt8.ofNat a :: l < UInt8.ofNat b :: l' := by
  rw [List.cons_lt_cons_iff]
  rcases h with h | ⟨rfl, h⟩
  · left
    rw [UInt8.lt_iff_toNat_lt, UInt8.toNat_ofNat_of_lt' ha, UInt8.toNat_ofNat_of_lt' hb]
    exact h
  · exact .inr ⟨rfl, h⟩

/-- Of two characters the one that comes first has the encoding that comes first. -/
theorem encodeChar_lt {c d : Char} (h : c < d) (l l' : List UInt8) :
    String.utf8EncodeChar c ++ l < String.utf8EncodeChar d ++ l' := by
  have order : c.val.toNat < d.val.toNat := h
  have limit : d.val.toNat < 0x110000 := by
    have := d.valid
    simp only [UInt32.isValidChar, Nat.isValidChar] at this
    omega
  unfold String.utf8EncodeChar
  dsimp only
  generalize c.val.toNat = v at *
  generalize d.val.toNat = w at *
  -- The first byte tells how many follow, so encodings of different lengths differ in it. Those of
  -- the same length differ in the first digit to the base 64 that their numbers differ in.
  split
  · split
    · exact byte_cons_lt (by omega) (by omega) (.inl order)
    all_goals
      repeat' split
      all_goals exact byte_cons_lt (by omega) (by omega) (.inl (by omega))
  split
  · rw [if_neg (by omega)]
    split
    · refine byte_cons_lt (by omega) (by omega) ?_
      by_cases first : v / 64 < w / 64
      · exact .inl (by omega)
      exact .inr ⟨by omega, byte_cons_lt (by omega) (by omega) (.inl (by omega))⟩
    · split
      all_goals exact byte_cons_lt (by omega) (by omega) (.inl (by omega))
  split
  · rw [if_neg (by omega), if_neg (by omega)]
    split
    · refine byte_cons_lt (by omega) (by omega) ?_
      by_cases first : v / 4096 < w / 4096
      · exact .inl (by omega)
      refine .inr ⟨by omega, byte_cons_lt (by omega) (by omega) ?_⟩
      by_cases second : v / 64 < w / 64
      · exact .inl (by omega)
      exact .inr ⟨by omega, byte_cons_lt (by omega) (by omega) (.inl (by omega))⟩
    · exact byte_cons_lt (by omega) (by omega) (.inl (by omega))
  · rw [if_neg (by omega), if_neg (by omega), if_neg (by omega)]
    refine byte_cons_lt (by omega) (by omega) ?_
    by_cases first : v / 262144 < w / 262144
    · exact .inl (by omega)
    refine .inr ⟨by omega, byte_cons_lt (by omega) (by omega) ?_⟩
    by_cases second : v / 4096 < w / 4096
    · exact .inl (by omega)
    refine .inr ⟨by omega, byte_cons_lt (by omega) (by omega) ?_⟩
    by_cases third : v / 64 < w / 64
    · exact .inl (by omega)
    exact .inr ⟨by omega, byte_cons_lt (by omega) (by omega) (.inl (by omega))⟩

theorem append_lt_append {l l' : List UInt8} (common : List UInt8) (h : l < l') :
    common ++ l < common ++ l' := by
  induction common with
  | nil => exact h
  | cons b common ih => exact List.cons_lt_cons_iff.2 (.inr ⟨rfl, ih⟩)

theorem encode_lt {cs ds : List Char} (h : cs < ds) :
    cs.flatMap String.utf8EncodeChar < ds.flatMap String.utf8EncodeChar := by
  induction cs generalizing ds with
  | nil =>
    cases ds with
    | nil => exact absurd h (List.lt_irrefl _)
    | cons d ds =>
      rw [List.flatMap_cons]
      cases hd : String.utf8EncodeChar d with
      | nil => exact absurd hd String.utf8EncodeChar_ne_nil
      | cons b bs => exact List.nil_lt_cons _ _
  | cons c cs ih =>
    cases ds with
    | nil => exact absurd h (List.not_lt_nil _)
    | cons d ds =>
      rw [List.flatMap_cons, List.flatMap_cons]
      rcases List.cons_lt_cons_iff.1 h with first | ⟨rfl, rest⟩
      · exact encodeChar_lt first _ _
      · exact append_lt_append _ (ih rest)

theorem le_of_compare {s t : String} (h : (compare s t).isLE) : s ≤ t := by
  intro after
  have gt : compare s t = .gt := by
    change compareOfLessAndEq s t = .gt
    rw [compareOfLessAndEq, if_neg (String.lt_asymm after), if_neg (String.ne_of_lt after).symm]
  rw [gt] at h
  cases h

/-- Texts in order have encodings in order. -/
theorem bytes_le {s t : String} (h : s ≤ t) : bytes s ≤ bytes t := by
  rw [bytes_eq, bytes_eq]
  by_cases same : s = t
  · rw [same]
    exact List.le_refl _
  · have before : s < t := Decidable.by_contra fun after => same (String.le_antisymm h after)
    exact List.le_of_lt (encode_lt before)

end PapyrusAnalysis.Text
