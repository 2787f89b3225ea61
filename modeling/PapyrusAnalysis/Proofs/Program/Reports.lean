import PapyrusAnalysis.Proofs.Codebase
import PapyrusAnalysis.Proofs.Diagnostic.Sorting
import PapyrusAnalysis.Proofs.Validation.Conduct

/-!
# The reports of a program

What is wrong with a program is what binding its scripts and checking each of them reports. Every
diagnostic names a file, so the whole is put together file by file, and as long as no two scripts
have the same file the order in which they are checked plays no part.

## Main definitions

* `Program.Indexed`: the scripts of a program are found by their names.
* `Program.reportOf`: what is wrong with a script.
-/

namespace PapyrusAnalysis

namespace Report

theorem file_assignFile {r : Report} {file : String} (h : ∀ d ∈ r, d.file = none) :
    ∀ d ∈ r.assignFile file, d.file = some file := by
  intro d hd
  obtain ⟨d', hd', rfl⟩ := List.mem_map.1 hd
  simp [Diagnostic.inFile, h d' hd']

theorem isSome_assignFile (r : Report) (file : String) :
    ∀ d ∈ r.assignFile file, d.file.isSome := by
  intro d hd
  obtain ⟨d', -, rfl⟩ := List.mem_map.1 hd
  rfl

end Report

namespace Program

variable {p p' : Program} {t : Tree} {script : ProgramScript}

/-- The scripts of a program are found by their names, and what binding reports names files. -/
structure Indexed (p : Program) : Prop where
  keys : ∀ entry ∈ p.scripts.entries, entry.1 = Text.lowercase entry.2.name
  nodup : p.scripts.keys.Nodup
  files : ∀ d ∈ p.bindReport, d.file.isSome

theorem Indexed.withScript (h : p.Indexed) (root : NodeId) (name : String)
    (answer : Option SymbolId) (b : Binding) : (p.withScript root name answer b).Indexed := by
  have files : ∀ d ∈ (p.withScript root name answer b).bindReport, d.file.isSome := by
    intro d hd
    rcases List.mem_append.1 hd with hd | hd
    · exact h.files d hd
    · exact Report.isSome_assignFile _ _ d hd
  cases answer with
  | none => exact ⟨h.keys, h.nodup, files⟩
  | some id =>
    by_cases taken : (name.isEmpty || p.scripts.contains (Text.lowercase name)) = true
    · have same : (p.withScript root name (some id) b).scripts = p.scripts := if_pos taken
      exact ⟨same ▸ h.keys, same ▸ h.nodup, files⟩
    · have fresh : p.scripts.contains (Text.lowercase name) = false := by
        simp only [Bool.or_eq_true, not_or, Bool.not_eq_true] at taken
        exact taken.2
      have more : (p.withScript root name (some id) b).scripts =
          p.scripts.insert (Text.lowercase name)
            ⟨name, root, id, (QualifiedName.parse name).file⟩ := if_neg taken
      refine ⟨?_, ?_, files⟩
      · rw [more, Registry.entries_insert fresh]
        intro entry he
        rcases List.mem_append.1 he with he | he
        · exact h.keys entry he
        · rw [List.mem_singleton.1 he]
      · rw [more, Registry.keys_insert, fresh]
        refine List.nodup_append.2 ⟨h.nodup, by simp, ?_⟩
        rintro key hk _ hl rfl
        rw [List.mem_singleton.1 hl, Registry.mem_keys_iff, fresh] at hk
        cases hk

theorem indexed_ofTree (run : ofTree t = .ok p) : p.Indexed :=
  foldlM_keeps (p := ⟨t, {}, ∅, []⟩) ⟨by simp [EmptyCollection.emptyCollection], .nil, by simp⟩
    (fun _ h => h.withScript _ _ _ _) run

theorem Indexed.script? (h : p.Indexed) (hm : script ∈ p.scripts.values) :
    p.script? script.name = some script := by
  obtain ⟨⟨key, _⟩, he, rfl⟩ := List.mem_map.1 hm
  have named := h.keys _ he
  exact (congrArg _ named.symm).trans (Registry.find?_of_mem h.nodup he)

/-! ## One script -/

theorem check_files {r : Report} (run : p.check script = .ok r) :
    ∀ d ∈ r, d.file = some script.file := by
  obtain ⟨s, -, rest⟩ := exists_of_bind_eq_ok run
  obtain ⟨found, validated, assigned⟩ := exists_of_bind_eq_ok rest
  cases assigned
  obtain ⟨⟨_, s'⟩, checked, same⟩ := exists_of_bind_eq_ok validated
  cases same
  have remarks := Check.remark_of_validate (.any p.codebase) trivial checked
  exact Report.file_assignFile fun d hd => (remarks d hd).file

/-- What is wrong with a script, if it can be checked. -/
def reportOf (p : Program) (script : ProgramScript) : Report := (p.check script).toOption.getD []

/-- The scripts of a program can be checked. -/
def Checks (p : Program) : Prop :=
  ∀ script ∈ p.scripts.values, ∃ r, p.checkScript script.name = .ok r

theorem check_eq_reportOf (indexed : p.Indexed) (checks : p.Checks)
    (hm : script ∈ p.scripts.values) : p.check script = .ok (p.reportOf script) := by
  obtain ⟨r, run⟩ := checks script hm
  rw [checkScript, indexed.script? hm] at run
  obtain ⟨report, checked, -⟩ := exists_of_bind_eq_ok run
  rw [reportOf, checked]
  rfl

theorem checkScript_eq (indexed : p.Indexed) (checks : p.Checks)
    (hm : script ∈ p.scripts.values) :
    p.checkScript script.name = .ok (some (p.reportOf script)) := by
  rw [checkScript, indexed.script? hm]
  dsimp only
  rw [check_eq_reportOf indexed checks hm]
  rfl

theorem reportOf_files (indexed : p.Indexed) (checks : p.Checks) (hm : script ∈ p.scripts.values) :
    ∀ d ∈ p.reportOf script, d.file = some script.file :=
  check_files (check_eq_reportOf indexed checks hm)

/-! ## The whole program -/

theorem checkAll_eq (indexed : p.Indexed) (checks : p.Checks) :
    p.checkAll = .ok (Report.sorted (p.bindReport ++ p.scripts.values.flatMap p.reportOf)) := by
  have each : ∀ scripts : List ProgramScript, (∀ script ∈ scripts, script ∈ p.scripts.values) →
      scripts.mapM p.check = .ok (scripts.map p.reportOf) := by
    intro scripts inside
    induction scripts with
    | nil => rfl
    | cons script rest ih =>
      rw [List.mapM_cons, check_eq_reportOf indexed checks (inside script (by simp)),
        ih fun other ho => inside other (by simp [ho])]
      rfl
  rw [checkAll, each _ fun _ h => h]
  simp only [List.flatMap_def]
  rfl

/-- What the checks of some scripts say about a file is what those with the file report. -/
theorem filter_reports (indexed : p.Indexed) (checks : p.Checks) {scripts : List ProgramScript}
    (inside : ∀ script ∈ scripts, script ∈ p.scripts.values) (file : String) :
    (scripts.flatMap p.reportOf).filter (·.file = some file) =
      (scripts.filter (·.file = file)).flatMap p.reportOf := by
  induction scripts with
  | nil => rfl
  | cons script rest ih =>
    have files := reportOf_files indexed checks (inside script (by simp))
    rw [List.flatMap_cons, List.filter_append, ih fun other ho => inside other (by simp [ho]),
      List.filter_cons]
    by_cases same : script.file = file
    · rw [if_pos (by simpa using same), List.flatMap_cons, List.filter_eq_self.2]
      intro d hd
      simp [files d hd, same]
    · rw [if_neg (by simpa using same), List.filter_eq_nil_iff.2, List.nil_append]
      intro d hd
      simp [files d hd, same]

/-- If no two scripts have the same file, those with a file are the same in every order. -/
theorem filter_file_perm {scripts order : List ProgramScript} (files : (scripts.map (·.file)).Nodup)
    (perm : order.Perm scripts) (file : String) :
    order.filter (·.file = file) = scripts.filter (·.file = file) := by
  have filtered := perm.filter (·.file = file)
  have sublist : (scripts.filter (·.file = file)).Sublist scripts := List.filter_sublist
  have once := (sublist.map (·.file)).nodup files
  have named : ∀ script ∈ scripts.filter (·.file = file), script.file = file := by
    intro script hm
    simpa using (List.mem_filter.1 hm).2
  rcases hs : scripts.filter (·.file = file) with _ | ⟨a, _ | ⟨b, rest⟩⟩
  · rw [hs] at filtered ⊢
    exact filtered.eq_nil
  · rw [hs] at filtered ⊢
    exact List.perm_singleton.1 filtered
  · rw [hs] at once named
    simp [named a, named b] at once

theorem sorted_reports_perm (indexed : p.Indexed) (checks : p.Checks)
    (files : (p.scripts.values.map (·.file)).Nodup) {order : List ProgramScript}
    (perm : order.Perm p.scripts.values) :
    Report.sorted (p.bindReport ++ order.flatMap p.reportOf) =
      Report.sorted (p.bindReport ++ p.scripts.values.flatMap p.reportOf) := by
  refine Report.sorted_congr fun file => ?_
  rw [List.filter_append, List.filter_append]
  congr 1
  cases file with
  | none =>
    have named {scripts : List ProgramScript} (inside : ∀ s ∈ scripts, s ∈ p.scripts.values) :
        (scripts.flatMap p.reportOf).filter (·.file = none) = [] := by
      rw [List.filter_eq_nil_iff]
      intro d hd
      obtain ⟨script, hs, hd⟩ := List.mem_flatMap.1 hd
      simp [reportOf_files indexed checks (inside script hs) d hd]
    rw [named fun s hs => perm.mem_iff.1 hs, named fun s hs => hs]
  | some file =>
    rw [filter_reports indexed checks fun s hs => perm.mem_iff.1 hs,
      filter_reports indexed checks fun s hs => hs, filter_file_perm files perm]

/-- Checking a program reports, for each file, what binding reports about it and what is wrong with
the scripts that have the file, by offset. The files come in the order of their encodings, nothing
is lost and nothing is reported twice. If no two scripts have the same file, the order in which they
are checked plays no part. -/
theorem checkAll_merges (bound : ofTree t = .ok p)
    (checks : ∀ script ∈ p.scripts.values, ∃ r, p.checkScript script.name = .ok r) :
    ∃ (report : ProgramScript → Report) (all : Report),
      (∀ script ∈ p.scripts.values, p.checkScript script.name = .ok (some (report script))) ∧
      p.checkAll = .ok all ∧
      (∀ file, all.filter (·.file = some file) =
        (p.bindReport.filter (·.file = some file) ++
          (p.scripts.values.filter (·.file = file)).flatMap report).mergeSort
            fun a b => a.offset ≤ b.offset) ∧
      (∀ d ∈ all, d.file.isSome) ∧
      (all.Pairwise fun a b => ∀ f g, a.file = some f → b.file = some g →
        Text.bytes f ≤ Text.bytes g) ∧
      all.Perm (p.bindReport ++ p.scripts.values.flatMap report) ∧
      ((p.scripts.values.map (·.file)).Nodup →
        ∀ order : List ProgramScript, order.Perm p.scripts.values →
          Report.sorted (p.bindReport ++ order.flatMap report) = all) := by
  have indexed := indexed_ofTree bound
  refine ⟨p.reportOf, _, fun script hm => checkScript_eq indexed checks hm,
    checkAll_eq indexed checks, fun file => ?_, fun d hd => ?_, ?_, List.mergeSort_perm _ _,
    fun files order perm => sorted_reports_perm indexed checks files perm⟩
  · rw [Report.filter_sorted, List.filter_append, filter_reports indexed checks fun s hs => hs]
    rfl
  · rw [Report.sorted, List.mem_mergeSort] at hd
    rcases List.mem_append.1 hd with hd | hd
    · exact indexed.files d hd
    · obtain ⟨script, hs, hd⟩ := List.mem_flatMap.1 hd
      simp [reportOf_files indexed checks hs d hd]
  · refine (Report.files_sorted _).imp ?_
    intro a b ordered f g hf hg
    rw [hf, hg] at ordered
    exact Text.bytes_le (Text.le_of_compare ordered)

/-- Two scripts in different files with types that do not exist. The second one declares a variable
twice. -/
def strayForms : List Form :=
  [.identifier "B", .scriptHeader ⟨0⟩ none ∅, .identifier "T", .typeName ⟨2⟩ false,
    .identifier "x", .variableDefinition ⟨3⟩ ⟨4⟩ none ∅, .script ⟨1⟩ [] [⟨5⟩], .identifier "A",
    .scriptHeader ⟨7⟩ none ∅, .identifier "F", .parameterList [], .functionHeader none ⟨9⟩ ⟨10⟩ ∅,
    .identifier "T", .typeName ⟨12⟩ false, .identifier "y", .declaration ⟨13⟩ ⟨14⟩ none,
    .identifier "T", .typeName ⟨16⟩ false, .identifier "y", .declaration ⟨17⟩ ⟨18⟩ none,
    .function ⟨11⟩ [⟨15⟩, ⟨19⟩], .script ⟨8⟩ [] [⟨20⟩]]

theorem stray_types_merge : ∃ p, ofTree (.ofForms strayForms) = .ok p ∧
    (∀ script ∈ p.scripts.values, ∃ r, p.checkScript script.name = .ok r) ∧
    p.scripts.values.length = 2 ∧ p.bindReport.length = 1 ∧
    (p.scripts.values.map (·.file)).Nodup ∧
    ∃ (report : ProgramScript → Report) (all : Report),
      (∀ script ∈ p.scripts.values, p.checkScript script.name = .ok (some (report script))) ∧
      p.checkAll = .ok all ∧
      (∀ file, all.filter (·.file = some file) =
        (p.bindReport.filter (·.file = some file) ++
          (p.scripts.values.filter (·.file = file)).flatMap report).mergeSort
            fun a b => a.offset ≤ b.offset) ∧
      (∀ d ∈ all, d.file.isSome) ∧
      (all.Pairwise fun a b => ∀ f g, a.file = some f → b.file = some g →
        Text.bytes f ≤ Text.bytes g) ∧
      all.Perm (p.bindReport ++ p.scripts.values.flatMap report) ∧
      ((p.scripts.values.map (·.file)).Nodup → ∀ order : List ProgramScript,
        order.Perm p.scripts.values →
          Report.sorted (p.bindReport ++ order.flatMap report) = all) := by
  obtain ⟨p, bound, holds⟩ := exists_ok_of_any (o := ofTree (.ofForms strayForms))
    (f := fun p : Program => (p.scripts.values.all fun script =>
        (p.checkScript script.name).toOption.isSome) &&
      decide (p.scripts.values.length = 2 ∧ p.bindReport.length = 1 ∧
        (p.scripts.values.map ProgramScript.file).Nodup))
    (by decide +kernel)
  rw [Bool.and_eq_true, List.all_eq_true, decide_eq_true_iff] at holds
  have checks : ∀ script ∈ p.scripts.values, ∃ r, p.checkScript script.name = .ok r := by
    intro script hm
    have found := holds.1 script hm
    cases hr : p.checkScript script.name with
    | error e => rw [hr] at found; cases found
    | ok r => exact ⟨r, rfl⟩
  exact ⟨p, bound, checks, holds.2.1, holds.2.2.1, holds.2.2.2, checkAll_merges bound checks⟩

end Program

end PapyrusAnalysis
