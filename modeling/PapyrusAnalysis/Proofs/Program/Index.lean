import PapyrusAnalysis.Proofs.Codebase

/-!
# The scripts of a program by name

A program keeps the scripts that it finds by name, and so do its symbols, which also serve on their
own when a tree is bound without making a program. Both take the first script with a name and pass
over scripts without one, so both give the same answers. This holds for every tree that can be
bound.

## Main definitions

* `Registry.map`: a registry with other values.
* `Program.Mirrored`: the scripts of a program are those that its symbols know.
-/

namespace PapyrusAnalysis

namespace Registry

variable {κ ν μ : Type}

/-- The registry with a function applied to its values. -/
def map (f : ν → μ) (r : Registry κ ν) : Registry κ μ := ⟨r.entries.map fun e => (e.1, f e.2)⟩

theorem values_map (f : ν → μ) (r : Registry κ ν) : (r.map f).values = r.values.map f := by
  simp [map, values]

variable [DecidableEq κ]

theorem find?_map (f : ν → μ) (r : Registry κ ν) (key : κ) :
    (r.map f).find? key = (r.find? key).map f := by
  obtain ⟨entries⟩ := r
  simp only [map, find?]
  induction entries with
  | nil => rfl
  | cons entry rest ih =>
    rw [List.map_cons, findIn, findIn]
    split
    · rfl
    · exact ih

theorem contains_map (f : ν → μ) (r : Registry κ ν) (key : κ) :
    (r.map f).contains key = r.contains key := by
  rw [contains, find?_map, Option.isSome_map, contains]

theorem map_insert (f : ν → μ) (r : Registry κ ν) (key : κ) (value : ν) :
    (r.insert key value).map f = (r.map f).insert key (f value) := by
  obtain ⟨entries⟩ := r
  simp only [map, insert, Registry.mk.injEq]
  induction entries with
  | nil => rfl
  | cons entry rest ih =>
    simp only [insertIn, List.map_cons]
    split
    · rfl
    · rw [List.map_cons, ih]

end Registry

namespace Program

open Binding

variable {p q : Program} {t : Tree}

/-- The scripts of a program are those that its symbols know, in the same order, and each one has
the name of its symbol. -/
structure Mirrored (p : Program) : Prop where
  scripts : p.symbols.scripts = p.scripts.map (·.symbol)
  names : ∀ script ∈ p.scripts.values,
    (p.symbols.get? script.symbol).map (·.name) = some script.name

theorem Mirrored.find? (h : p.Mirrored) (name : String) :
    p.scriptIndex.find? name = p.symbols.scriptIndex.find? name := by
  change (p.scripts.find? (Text.lowercase name)).map (·.symbol) =
    p.symbols.scripts.find? (Text.lowercase name)
  rw [h.scripts, Registry.find?_map]

theorem Mirrored.scriptNames (h : p.Mirrored) :
    p.scriptIndex.names = p.symbols.scriptIndex.names := by
  have named : ∀ scripts : List ProgramScript, (∀ script ∈ scripts, script ∈ p.scripts.values) →
      ((scripts.map (·.symbol)).filterMap p.symbols.get?).map (·.name) = scripts.map (·.name) := by
    intro scripts inside
    induction scripts with
    | nil => rfl
    | cons script scripts ih =>
      obtain ⟨symbol, found, hname⟩ :=
        Option.map_eq_some_iff.1 (h.names script (inside script (by simp)))
      rw [List.map_cons, List.filterMap_cons_some found, List.map_cons, List.map_cons, hname,
        ih fun other ho => inside other (by simp [ho])]
  change p.scripts.values.map (·.name) =
    (p.symbols.scripts.values.filterMap p.symbols.get?).map (·.name)
  rw [h.scripts, Registry.values_map, named _ fun _ hm => hm]

theorem Mirrored.withScript (h : p.Mirrored) {root : NodeId} {name : String}
    {answer : Option SymbolId} {b : Binding}
    (adds : Adds p.tree (fun _ => False) p.symbols b.symbols)
    (registers : Registers name answer p.symbols b.symbols) :
    (p.withScript root name answer b).Mirrored := by
  have names : ∀ script ∈ p.scripts.values,
      (b.symbols.get? script.symbol).map (·.name) = some script.name := by
    intro script hm
    obtain ⟨symbol, hs, hname⟩ := Option.map_eq_some_iff.1 (h.names script hm)
    obtain ⟨symbol', hs', retains, -⟩ := adds.kept hs
    rw [hs', Option.map_some, retains.name, hname]
  cases answer with
  | none => exact ⟨(registers.nameless (.inl rfl)).trans h.scripts, names⟩
  | some id =>
    cases filled : name.isEmpty with
    | true =>
      have same : (p.withScript root name (some id) b).scripts = p.scripts := by
        change enter _ _ = _
        simp [enter, filled]
      exact ⟨same ▸ (registers.nameless (.inr filled)).trans h.scripts, same ▸ names⟩
    | false =>
      obtain ⟨scripts, titled⟩ := registers.named rfl filled
      rw [scripts_registerScript, h.scripts, Registry.contains_map] at scripts
      by_cases taken : p.scripts.contains (Text.lowercase name)
      · have same : (p.withScript root name (some id) b).scripts = p.scripts := by
          change enter _ _ = _
          simp [enter, taken]
        rw [if_pos taken] at scripts
        exact ⟨same ▸ scripts, same ▸ names⟩
      · have more : (p.withScript root name (some id) b).scripts = p.scripts.insert
            (Text.lowercase name) ⟨name, root, id, (QualifiedName.parse name).file⟩ := by
          change enter _ _ = _
          simp [enter, filled, taken]
        rw [if_neg taken] at scripts
        refine ⟨?_, fun script hm => ?_⟩
        · rw [more, Registry.map_insert]
          exact scripts
        · rw [more] at hm
          rcases Registry.mem_values_insert hm with rfl | old
          · exact titled
          · exact names script old

/-- Binding the scripts of a program one by one leads to the symbols to which binding them all
leads, whatever was reported before. -/
theorem foldlM_of_mapM {roots : List NodeId} {b b' : Binding} {answers : List (Option SymbolId)}
    (h : p.Mirrored) (sound : Binding.Sound p.tree p.symbols) (same : p.symbols = b.symbols)
    (run : roots.mapM (script p.tree) b = .ok (answers, b')) :
    ∃ q, roots.foldlM bindScript p = .ok q ∧ q.symbols = b'.symbols ∧ q.Mirrored := by
  induction roots generalizing p b answers with
  | nil =>
    cases run
    exact ⟨p, rfl, same, h⟩
  | cons root roots ih =>
    rw [List.mapM_cons] at run
    obtain ⟨answer, ⟨symbols, report⟩, first, rest⟩ := bind_eq_ok run
    obtain ⟨others, b'', rest, last⟩ := bind_eq_ok rest
    cases last
    obtain ⟨sound', adds, scripted, more, -, again⟩ := script_eq_ok (same ▸ sound) first
    obtain ⟨name, hname, registers⟩ := scripted.registers
    have bound : p.bindScript root =
        .ok (p.withScript root (name.getD "") answer ⟨symbols, [] ++ more⟩) := by
      rw [bindScript_eq, same, again, hname]
      rfl
    have mirrored : (p.withScript root (name.getD "") answer ⟨symbols, [] ++ more⟩).Mirrored :=
      h.withScript (same ▸ adds) (same ▸ registers)
    rw [List.foldlM_cons, bound]
    exact ih mirrored sound' rfl rest

/-- A tree that can be bound makes a program with the same symbols, and the program finds the same
scripts by name as its symbols do and lists them in the same order. -/
theorem ofTree_of_binding {b : Binding} (run : Binding.ofTree t = .ok b) :
    ∃ p, ofTree t = .ok p ∧ p.symbols = b.symbols ∧
      (∀ name, p.scriptIndex.find? name = b.symbols.scriptIndex.find? name) ∧
      p.scriptIndex.names = b.symbols.scriptIndex.names := by
  obtain ⟨⟨answers, b'⟩, bound, last⟩ := exists_of_bind_eq_ok run
  cases last
  have empty : Mirrored ⟨t, {}, ∅, []⟩ := ⟨rfl, by simp⟩
  obtain ⟨p, made, same, mirrored⟩ := foldlM_of_mapM empty (.empty t) rfl bound
  exact ⟨p, made, same, same ▸ mirrored.find?, same ▸ mirrored.scriptNames⟩

/-- Scripts with the same name in two cases, one without a name, one whose header is none, and one
with a name of its own. -/
def namesakeForms : List Form :=
  [.identifier "Door", .scriptHeader ⟨0⟩ none ∅, .script ⟨1⟩ [] [],
    .identifier "", .scriptHeader ⟨3⟩ none ∅, .script ⟨4⟩ [] [],
    .identifier "DOOR", .scriptHeader ⟨6⟩ none ∅, .script ⟨7⟩ [] [],
    .literal .none, .script ⟨9⟩ [] [],
    .identifier "Key", .scriptHeader ⟨11⟩ none ∅, .script ⟨12⟩ [] []]

theorem namesakes_found : ∃ b, Binding.ofTree (.ofForms namesakeForms) = .ok b ∧
    b.symbols.size = 4 ∧ b.symbols.scriptIndex.names = ["Door", "Key"] ∧
    ∃ p, ofTree (.ofForms namesakeForms) = .ok p ∧ p.symbols = b.symbols ∧
      (∀ name, p.scriptIndex.find? name = b.symbols.scriptIndex.find? name) ∧
      p.scriptIndex.names = b.symbols.scriptIndex.names := by
  obtain ⟨b, run, holds⟩ := exists_ok_of_any (o := Binding.ofTree (.ofForms namesakeForms))
    (f := fun b => decide (b.symbols.size = 4 ∧ b.symbols.scriptIndex.names = ["Door", "Key"]))
    (by decide +kernel)
  rw [decide_eq_true_iff] at holds
  exact ⟨b, run, holds.1, holds.2, ofTree_of_binding run⟩

end Program

end PapyrusAnalysis
