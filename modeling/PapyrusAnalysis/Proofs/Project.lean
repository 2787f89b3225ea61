import PapyrusAnalysis.Project
import PapyrusAnalysis.Proofs.Json.Reading

/-!
# Projects and their texts

A project is read back from its text, but for the file that it came from, which the text does not
hold. An object that gives the fields of a record under their names, each of them once, says the
same as the array of their values. It remains that each field takes back the value that is written
for it.

## Main results

* `Project.parse_render`: a project is what its text describes.
-/

namespace PapyrusAnalysis

/-! ## Records -/

namespace Field

variable {α : Type}

/-- The values of the fields under their names say the same as the values in order. -/
theorem putMembers_zip (done : List (Field α)) {fields : List (Field α)}
    (distinct : ((done ++ fields).map (·.name)).Nodup) {seen : List String}
    (known : ∀ key ∈ seen, key ∈ done.map (·.name)) (record : α) {values : List Json}
    (few : values.length ≤ fields.length) :
    putMembers (done ++ fields) seen record ((fields.map fun f => some f.name).zip values) =
      putItems record fields values := by
  induction fields generalizing done seen record values with
  | nil =>
    obtain rfl : values = [] := List.eq_nil_of_length_eq_zero (Nat.le_zero.mp few)
    rfl
  | cons field fields ih =>
    obtain _ | ⟨value, values⟩ := values
    · rfl
    -- No field before this one has its name, so that it is the one that is found.
    have fresh : ∀ f ∈ done, f.name ≠ field.name := by grind
    have unseen : seen.contains field.name = false := by grind
    have hfind : (done ++ field :: fields).find? (·.name == field.name) = some field := by
      rw [List.find?_append, List.find?_eq_none.mpr (by simpa using fresh)]
      simp
    simp only [List.map_cons, List.zip_cons_cons, putMembers, putItems, hfind, unseen]
    cases field.put record value with
    | none => rfl
    | some next =>
      have rest := ih (done ++ [field]) (by simpa using distinct)
        (show ∀ key ∈ field.name :: seen, _ by grind) next (Nat.le_of_succ_le_succ few)
      simpa using rest

/-- An object with the fields of a record in order says the same as the array of their values. -/
theorem decode_zip {fields : List (Field α)} (distinct : (fields.map (·.name)).Nodup) (empty : α)
    (values : List Json) (few : values.length ≤ fields.length) :
    decode fields empty (.object ((fields.map fun f => some f.name).zip values)) =
      decode fields empty (.array values) :=
  putMembers_zip [] distinct (by simp) empty few

end Field

/-! ## Values -/

namespace Json

@[simp] theorem toText?_ofText (text : String) : (ofText text).toText? = some text := rfl

@[simp] theorem toOptionalText?_ofOptionalText (text : Option String) :
    (ofOptionalText text).toOptionalText? = some text := by
  cases text <;> rfl

@[simp] theorem toTexts?_ofTexts (texts : List String) : (ofTexts texts).toTexts? = some texts := by
  simp only [ofTexts, toTexts?]
  induction texts with
  | nil => rfl
  | cons text texts ih => simp [ih]

@[simp] theorem toAssemblyMode?_label (mode : AssemblyMode) :
    (ofText mode.label).toAssemblyMode? = some mode := by
  cases mode <;> rfl

theorem plain_ofText (text : String) : Plain (ofText text) := .string text

theorem plain_ofOptionalText (text : Option String) : Plain (ofOptionalText text) := by
  cases text with
  | none => exact .null
  | some text => exact plain_ofText text

theorem plain_ofTexts (texts : List String) : Plain (ofTexts texts) := by
  apply Plain.array
  intro item h
  obtain ⟨text, -, rfl⟩ := List.mem_map.mp h
  exact plain_ofText text

end Json

namespace Folder

theorem plain_toJson (f : Folder) : f.toJson.Plain := by
  apply Json.Plain.object
  · simp
  · simp [Json.plain_ofText, Json.Plain.bool]

@[simp] theorem ofJson?_toJson (f : Folder) : ofJson? f.toJson = some f := by
  have distinct : (fields.map (·.name)).Nodup := by decide
  have ordered := Field.decode_zip distinct {} [.ofText f.path, .bool f.noRecurse] (Nat.le_refl 2)
  exact ordered.trans rfl

end Folder

namespace Project

theorem plain_toJson (p : Project) : p.toJson.Plain := by
  apply Json.Plain.object
  · simp
  · simp [Json.plain_ofText, Json.plain_ofOptionalText, Json.plain_ofTexts, Folder.plain_toJson,
      Json.Plain.bool]

theorem ofJson?_toJson (p : Project) : ofJson? p.toJson = some { p with file := none } := by
  have distinct : (fields.map (·.name)).Nodup := by decide
  have ordered := Field.decode_zip distinct {}
    [.ofOptionalText p.output, .ofOptionalText p.flags, .ofText p.assembly.label,
      .bool p.optimize, .bool p.release, .bool p.isFinal, .ofTexts p.imports, p.folder.toJson,
      .ofTexts p.scripts] (Nat.le_refl 9)
  apply ordered.trans
  simp [Field.decode, Field.putItems, fields, Json.toBool?]

/-- A project is read back from its text, but for the file that it came from. -/
theorem parse_render (p : Project) : parse p.render = .ok { p with file := none } := by
  have document : Json.parse? p.render = some p.toJson := p.plain_toJson.parse?_render
  simp [parse, document, ofJson?_toJson]

end Project

end PapyrusAnalysis
