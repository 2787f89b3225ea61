import Mathlib.Data.Option.Basic
import PapyrusAnalysis.Json.Reader

/-!
# Reading what was written

A document without numbers whose strings are texts is read back from its text. Every character has
one way in which it is written between quotes, and reading takes that way back. A value is read to
its last character and no further, so that what follows it plays no part.

## Main definitions

* `Json.Piece.Denotes`: a piece of a string stands for a character.
* `Json.Plain`: documents without numbers whose strings are texts.
-/

namespace PapyrusAnalysis.Json

/-! ## Strings -/

/-- A piece of a string stands for a character. Only control characters are given by their
numbers. -/
inductive Piece.Denotes : Piece → Char → Prop where
  | char (c : Char) : Denotes (.char c) c
  | unit {c : Char} (control : c.toNat < 0x20) : Denotes (.unit c.toNat) c

theorem hexValue?_hexDigit (n : Nat) : hexValue? (hexDigit n) = some (n % 16) := by
  have all : ∀ k < 16, hexValue? (Nat.digitChar k) = some k := by decide
  exact all (n % 16) (Nat.mod_lt n (by decide))

theorem readPieces_letter {letter c : Char} (rest : List Char) (h : escaped? letter = some c) :
    readPieces ('\\' :: letter :: rest) =
      (readPieces rest).map fun read => (.char c :: read.1, read.2) := by
  rw [readPieces]
  · simp only [h]
    cases readPieces rest <;> rfl
  · intros
    simp_all [escaped?]

theorem readPieces_number {c : Char} (rest : List Char) (control : c.toNat < 0x20) :
    readPieces ('\\' :: 'u' :: '0' :: '0' :: hexDigit (c.toNat / 16) :: hexDigit c.toNat :: rest) =
      (readPieces rest).map fun read => (.unit c.toNat :: read.1, read.2) := by
  have zero : hexValue? '0' = some 0 := rfl
  have total : c.toNat / 16 % 16 * 16 + c.toNat % 16 = c.toNat := by omega
  rw [readPieces]
  cases readPieces rest <;> simp [hexValue?_hexDigit, zero, total]

theorem readPieces_visible {c : Char} (rest : List Char) (quote : c ≠ '"') (backslash : c ≠ '\\')
    (visible : 0x20 ≤ c.toNat) :
    readPieces (c :: rest) = (readPieces rest).map fun read => (.char c :: read.1, read.2) := by
  have passes : (guard (0x20 ≤ c.toNat) : Option Unit) = some () := if_pos visible
  rw [readPieces]
  · rw [passes]
    cases readPieces rest <;> rfl
  all_goals intros; contradiction

/-- A written character is read as one piece, which stands for it. -/
theorem readPieces_renderChar (c : Char) (rest : List Char) :
    ∃ piece : Piece, piece.Denotes c ∧ readPieces (renderChar c ++ rest) =
      (readPieces rest).map fun read => (piece :: read.1, read.2) := by
  unfold renderChar
  split
  case h_8 quote backslash _ _ _ _ _ =>
    split
    case isTrue control => exact ⟨_, .unit control, readPieces_number rest control⟩
    case isFalse visible =>
      exact ⟨_, .char c, readPieces_visible rest quote backslash (Nat.le_of_not_lt visible)⟩
  all_goals exact ⟨_, .char _, readPieces_letter rest rfl⟩

theorem assemble_cons {piece : Piece} {c : Char} {pieces : List Piece} {chars : List Char}
    (first : piece.Denotes c) (h : assemble pieces = some chars) :
    assemble (piece :: pieces) = some (c :: chars) := by
  cases first with
  | char => simp [assemble, h]
  | unit control =>
    have whole : isHighHalf c.toNat = false ∧ isLowHalf c.toNat = false := by
      simp only [isHighHalf, isLowHalf, Bool.and_eq_false_iff, decide_eq_false_iff_not]
      omega
    obtain _ | ⟨_ | _, pieces⟩ := pieces <;> rw [assemble] <;>
      simp_all

/-- A written string is read up to its closing quote, and is the text again. -/
theorem readString_render (text : String) (rest : List Char) :
    readString (text.toList.flatMap renderChar ++ '"' :: rest) = some (some text, rest) := by
  have pieces (chars : List Char) : ∃ pieces,
      readPieces (chars.flatMap renderChar ++ '"' :: rest) = some (pieces, rest) ∧
        assemble pieces = some chars := by
    induction chars with
    | nil => exact ⟨[], by simp [readPieces], rfl⟩
    | cons c chars ih =>
      obtain ⟨pieces, hread, hchars⟩ := ih
      obtain ⟨piece, denotes, hpiece⟩ :=
        readPieces_renderChar c (chars.flatMap renderChar ++ '"' :: rest)
      refine ⟨piece :: pieces, ?_, assemble_cons denotes hchars⟩
      rw [List.flatMap_cons, List.append_assoc, hpiece, hread]
      rfl
  obtain ⟨pieces, hread, hchars⟩ := pieces text.toList
  simp [readString, hread, hchars]

/-! ## Values -/

/-- Documents without numbers whose strings are texts. -/
inductive Plain : Json → Prop where
  | null : Plain .null
  | bool (value : Bool) : Plain (.bool value)
  | string (text : String) : Plain (.string (some text))
  | array {items : List Json} (h : ∀ item ∈ items, Plain item) : Plain (.array items)
  | object {members : List (Option String × Json)}
      (keys : ∀ member ∈ members, member.1.isSome) (values : ∀ member ∈ members, Plain member.2) :
      Plain (.object members)

/-- No blank and no closing mark is the first character of a written value. -/
theorem Plain.head {j : Json} (plain : Plain j) : ∃ c chars, renderChars j = c :: chars ∧
    isBlank c = false ∧ c ≠ ']' := by
  cases plain with
  | null => exact ⟨'n', _, rfl, by decide, by decide⟩
  | bool value => cases value <;> exact ⟨_, _, rfl, by decide, by decide⟩
  | string text => exact ⟨'"', _, by simp [renderChars, renderText]; rfl, by decide, by decide⟩
  | array => exact ⟨'[', _, by simp [renderChars]; rfl, by decide, by decide⟩
  | object => exact ⟨'{', _, by simp [renderChars]; rfl, by decide, by decide⟩

theorem skipBlanks_cons {c : Char} (h : isBlank c = false) (rest : List Char) :
    skipBlanks (c :: rest) = c :: rest := by
  simp [skipBlanks, h]

/-- A value is read back from its text, to any depth that is at least twice its length. -/
def ReadBack (j : Json) : Prop :=
  ∀ (fuel : Nat) (rest : List Char), 2 * (renderChars j).length ≤ fuel →
    readValue fuel (renderChars j ++ rest) = some (j, rest)

theorem renderItems_cons_cons (item next : Json) (items : List Json) :
    renderItems (item :: next :: items) =
      renderChars item ++ ',' :: renderItems (next :: items) := by
  rw [renderItems]
  simp

theorem renderMembers_cons_cons (key : Option String) (value : Json)
    (next : Option String × Json) (members : List (Option String × Json)) :
    renderMembers ((key, value) :: next :: members) =
      renderText (key.getD "") ++ ':' :: renderChars value ++
        ',' :: renderMembers (next :: members) := by
  rw [renderMembers]
  simp

/-- The items of an array are read back. -/
theorem readItems_renderItems {item : Json} {items : List Json} {fuel : Nat} {rest : List Char}
    (each : ∀ j ∈ item :: items, ReadBack j)
    (enough : 2 * (renderItems (item :: items)).length < fuel) :
    readItems fuel (renderItems (item :: items) ++ ']' :: rest) = some (item :: items, rest) := by
  induction items generalizing item fuel with
  | nil =>
    obtain _ | fuel := fuel
    · omega
    rw [renderItems] at enough ⊢
    rw [readItems, each item (by simp) fuel _ (by omega)]
    rfl
  | cons next items ih =>
    obtain _ | fuel := fuel
    · omega
    rw [renderItems_cons_cons, List.length_append, List.length_cons] at enough
    rw [renderItems_cons_cons, List.append_assoc, List.cons_append, readItems,
      each item (by simp) fuel _ (by omega)]
    have others : readItems fuel (renderItems (next :: items) ++ ']' :: rest) =
        some (next :: items, rest) :=
      ih (fun j h => each j (List.mem_cons_of_mem item h)) (by omega)
    simp [skipBlanks_cons (c := ',') rfl, others]

/-- The members of an object are read back. -/
theorem readMembers_renderMembers {member : Option String × Json}
    {members : List (Option String × Json)} {fuel : Nat} {rest : List Char}
    (keys : ∀ m ∈ member :: members, m.1.isSome) (each : ∀ m ∈ member :: members, ReadBack m.2)
    (enough : 2 * (renderMembers (member :: members)).length < fuel) :
    readMembers fuel (renderMembers (member :: members) ++ '}' :: rest) =
      some (member :: members, rest) := by
  induction members generalizing member fuel with
  | nil =>
    obtain _ | fuel := fuel
    · omega
    obtain ⟨_ | key, value⟩ := member
    · simp at keys
    have read : ReadBack value := each (some key, value) List.mem_cons_self
    simp only [renderMembers, List.length_append, List.length_cons] at enough
    rw [renderMembers, readMembers]
    simp [renderText, skipBlanks_cons, isBlank, readString_render, read fuel _ (by omega)]
  | cons next members ih =>
    obtain _ | fuel := fuel
    · omega
    obtain ⟨_ | key, value⟩ := member
    · simp at keys
    have read : ReadBack value := each (some key, value) List.mem_cons_self
    simp only [renderMembers_cons_cons, List.length_append, List.length_cons] at enough
    have others : readMembers fuel (renderMembers (next :: members) ++ '}' :: rest) =
        some (next :: members, rest) :=
      ih (fun m h => keys m (List.mem_cons_of_mem _ h))
        (fun m h => each m (List.mem_cons_of_mem _ h)) (by omega)
    rw [renderMembers_cons_cons, readMembers]
    simp [renderText, skipBlanks_cons, isBlank, readString_render, read fuel _ (by omega), others]

theorem readValue_bracket {c : Char} (fuel : Nat) (rest : List Char) (blank : isBlank c = false)
    (bracket : c ≠ ']') :
    readValue (fuel + 1) ('[' :: c :: rest) =
      (readItems fuel (c :: rest)).map fun read => (.array read.1, read.2) := by
  cases h : readItems fuel (c :: rest) <;>
    simp [readValue, skipBlanks_cons (c := '[') rfl, skipBlanks_cons blank, bracket, h]

theorem readValue_brace (fuel : Nat) (rest : List Char) :
    readValue (fuel + 1) ('{' :: '"' :: rest) =
      (readMembers fuel ('"' :: rest)).map fun read => (.object read.1, read.2) := by
  cases h : readMembers fuel ('"' :: rest) <;>
    simp [readValue, skipBlanks_cons (c := '{') rfl, skipBlanks_cons (c := '"') rfl, h]

theorem ReadBack.array {items : List Json} (plain : ∀ item ∈ items, Plain item)
    (each : ∀ item ∈ items, ReadBack item) : ReadBack (.array items) := by
  intro fuel rest enough
  obtain _ | fuel := fuel
  · simp [renderChars] at enough
  cases items with
  | nil => rfl
  | cons item items =>
    simp only [renderChars, List.length_append, List.length_cons] at enough
    have read : readItems fuel (renderItems (item :: items) ++ ']' :: rest) =
        some (item :: items, rest) := readItems_renderItems each (by omega)
    -- The first item shows that the array is not empty.
    obtain ⟨c, chars, hchars, blank, bracket⟩ := (plain item List.mem_cons_self).head
    obtain ⟨tail, htail⟩ : ∃ tail, renderItems (item :: items) = c :: tail := by
      cases items <;> simp [renderItems, hchars]
    rw [htail, List.cons_append] at read
    rw [renderChars, htail, List.append_assoc, List.cons_append, List.cons_append,
      readValue_bracket fuel _ blank bracket, List.singleton_append, read]
    rfl

theorem ReadBack.object {members : List (Option String × Json)}
    (keys : ∀ m ∈ members, m.1.isSome) (each : ∀ m ∈ members, ReadBack m.2) :
    ReadBack (.object members) := by
  intro fuel rest enough
  obtain _ | fuel := fuel
  · simp [renderChars] at enough
  cases members with
  | nil => rfl
  | cons member members =>
    simp only [renderChars, List.length_append, List.length_cons] at enough
    have read : readMembers fuel (renderMembers (member :: members) ++ '}' :: rest) =
        some (member :: members, rest) := readMembers_renderMembers keys each (by omega)
    obtain ⟨tail, htail⟩ : ∃ tail, renderMembers (member :: members) = '"' :: tail := by
      cases members <;> simp [renderMembers, renderText]
    rw [htail, List.cons_append] at read
    rw [renderChars, htail, List.append_assoc, List.cons_append, List.cons_append,
      readValue_brace, List.singleton_append, read]
    rfl

/-- A document is read back from its text, whatever follows it. -/
theorem Plain.readBack {j : Json} (plain : Plain j) : ReadBack j := by
  induction plain with
  | null => 
    rintro (_ | fuel) rest enough
    · cases enough
    · rfl
  | bool value =>
    rintro (_ | fuel) rest enough
    · cases value <;> cases enough
    · cases value <;> rfl
  | string text =>
    rintro (_ | fuel) rest enough
    · simp [renderChars, renderText] at enough
    · simp [renderChars, renderText, readValue, skipBlanks_cons, isBlank, readString_render]
  | array plain each => exact .array plain each
  | object keys _ each => exact .object keys each

/-- A document is what its text holds. -/
theorem Plain.parse?_render {j : Json} (plain : Plain j) : parse? j.render = some j := by
  have read := plain.readBack (2 * (renderChars j).length + 2) [] (by omega)
  rw [List.append_nil] at read
  simp only [parse?, render, String.toList_ofList, read]
  rfl

end PapyrusAnalysis.Json
