import PapyrusAnalysis.Proofs.Program.Reports
import PapyrusAnalysis.Proofs.Text.Caseless

/-!
# Names of scripts and their files

A full name is cut at its last colon. Joining the parts gives the name back, except that a colon in
front of a name without any other colon is lost: the empty namespace is written without a colon.
With this one exception, the file of a script is its full name with slashes for colons. So names
without slashes have different files if they are different, and no two scripts of a program report
against the same file.

## Main definitions

* `QualifiedName.ColonLed`: the names that lose their colon.
* `QualifiedName.Regular`: the names that can be told from their files.
* `Program.Filed`: the scripts of a program have the files that belong to their names.
* `Program.Reports`: what a script reports when it is bound or checked.

## Main statements

* `QualifiedName.parse_cases`: how a name is cut.
* `QualifiedName.file_parse`: the file of a script is its full name with slashes for colons.
* `Program.names_and_files`: names, their parts and the files of scripts determine each other.
-/

namespace PapyrusAnalysis

namespace QualifiedName

variable {fullName container name a b : String}

/-- A colon in front of a text without one. -/
def ColonLed (fullName : String) : Prop :=
  ∃ rest : String, fullName = ":" ++ rest ∧ ':' ∉ rest.toList

theorem colonLed_iff :
    ColonLed fullName ↔ fullName.toList.head? = some ':' ∧ ':' ∉ fullName.toList.tail := by
  constructor
  · rintro ⟨rest, rfl, plain⟩
    simpa using plain
  · rintro ⟨first, plain⟩
    refine ⟨.ofList fullName.toList.tail, ?_, by simpa using plain⟩
    apply String.toList_inj.1
    simpa using (List.cons_head?_tail first).symm

instance : Decidable (ColonLed fullName) := decidable_of_iff _ colonLed_iff.symm

/-! ## Cutting and joining -/

theorem parse_bare (h : ':' ∉ fullName.toList) : parse fullName = ⟨"", fullName⟩ := by
  have none : fullName.toList.reverse.dropWhile (· != ':') = [] := by
    rw [List.dropWhile_eq_nil_iff]
    intro c hc
    rw [bne_iff_ne]
    rintro rfl
    exact h (List.mem_reverse.1 hc)
  simp only [parse, none]

/-- A text with a colon is put together around its last one. -/
theorem exists_last_colon (h : ':' ∈ fullName.toList) :
    ∃ container name : String, fullName = container ++ ":" ++ name ∧ ':' ∉ name.toList := by
  obtain ⟨front, back, split, plain⟩ := List.eq_append_cons_of_mem (List.mem_reverse.2 h)
  refine ⟨.ofList back.reverse, .ofList front.reverse, String.toList_inj.1 ?_, by simpa using plain⟩
  have forwards := congrArg List.reverse split
  simpa using forwards

/-- A name is cut at its last colon, if there is one. -/
theorem parse_cases (fullName : String) :
    ':' ∉ fullName.toList ∧ parse fullName = ⟨"", fullName⟩ ∨
      ∃ container name, fullName = container ++ ":" ++ name ∧ ':' ∉ name.toList ∧
        parse fullName = ⟨container, name⟩ := by
  by_cases colon : ':' ∈ fullName.toList
  · obtain ⟨container, name, rfl, plain⟩ := exists_last_colon colon
    exact .inr ⟨container, name, rfl, plain, parse_qualified plain⟩
  · exact .inl ⟨colon, parse_bare colon⟩

/-- A name that is cut into a namespace and a name is led by its only colon if the namespace is
empty. -/
theorem colonLed_cut (plain : ':' ∉ name.toList) :
    ColonLed (container ++ ":" ++ name) ↔ container = "" := by
  constructor
  · intro led
    obtain ⟨first, rest⟩ := colonLed_iff.1 led
    cases hc : container.toList with
    | nil => exact String.toList_inj.1 hc
    | cons c cs => simp [hc] at rest
  · rintro rfl
    exact ⟨name, by simp, plain⟩

theorem not_colonLed_of_bare (h : ':' ∉ fullName.toList) : ¬ ColonLed fullName := by
  rintro ⟨rest, rfl, -⟩
  simp at h

/-- The parts of a name give it back, unless it is led by its only colon. -/
theorem join_parse_iff (fullName : String) :
    (parse fullName).join = fullName ↔ ¬ ColonLed fullName := by
  rcases parse_cases fullName with ⟨bare, cut⟩ | ⟨container, name, rfl, plain, cut⟩
  · simp [cut, join, qualify, not_colonLed_of_bare bare]
  · rw [cut, colonLed_cut plain, join, qualify]
    by_cases empty : container = ""
    · subst empty
      simp [← String.toList_inj]
    · simp [empty]

/-- A namespace and a name are found again in what they are joined to. -/
theorem parse_qualify (container : String) (h : ':' ∉ name.toList) :
    parse (qualify container name) = ⟨container, name⟩ := by
  unfold qualify
  split
  · rename_i empty
    rw [parse_bare h, String.isEmpty_iff.1 empty]
  · exact parse_qualified h

/-! ## Files -/

/-- A slash for a colon. -/
def pathChar (c : Char) : Char := if c = ':' then '/' else c

theorem map_pathChar_of_bare {text : List Char} (h : ':' ∉ text) : text.map pathChar = text := by
  refine (List.map_congr_left fun c hc => if_neg ?_).trans (List.map_id text)
  rintro rfl
  exact h hc

/-- Where there are no slashes the colons can be put back. -/
theorem eq_of_map_pathChar {text text' : List Char} (h : '/' ∉ text) (h' : '/' ∉ text')
    (same : text.map pathChar = text'.map pathChar) : text = text' := by
  have back {text : List Char} (h : '/' ∉ text) :
      (text.map pathChar).map (fun c => if c = '/' then ':' else c) = text := by
    rw [List.map_map]
    refine (List.map_congr_left fun c hc => ?_).trans (List.map_id text)
    have ne : c ≠ '/' := by
      rintro rfl
      exact h hc
    by_cases colon : c = ':' <;> simp [pathChar, colon, ne]
  rw [← back h, ← back h', same]

/-- The file of a script is its full name with slashes for colons. -/
theorem file_parse (h : ¬ ColonLed fullName) :
    (parse fullName).file = .ofList (fullName.toList.map pathChar) ++ ".psc" := by
  rcases parse_cases fullName with ⟨bare, cut⟩ | ⟨container, name, rfl, plain, cut⟩
  · simp [cut, file, map_pathChar_of_bare bare]
  · rw [colonLed_cut plain] at h
    have folders : container.toList.map (fun c => if c = ':' then '/' else c) =
        container.toList.map pathChar := rfl
    rw [cut, file, if_neg (by simpa using h), folders]
    apply String.toList_inj.1
    simp [map_pathChar_of_bare plain, pathChar]

/-- A name without slashes that is not led by its only colon. -/
def Regular (fullName : String) : Prop := '/' ∉ fullName.toList ∧ ¬ ColonLed fullName

instance : Decidable (Regular fullName) := inferInstanceAs (Decidable (_ ∧ _))

theorem file_injective (regular : Regular a) (regular' : Regular b)
    (same : (parse a).file = (parse b).file) : a = b := by
  rw [file_parse regular.2, file_parse regular'.2] at same
  have texts := congrArg String.toList same
  rw [String.toList_append, String.toList_append, List.append_cancel_right_eq, String.toList_ofList,
    String.toList_ofList] at texts
  exact String.toList_inj.1 (eq_of_map_pathChar regular.1 regular'.1 texts)

end QualifiedName

/-! ## What scripts report -/

namespace Binding

/-- What binding reports names no file. -/
def Placeless (b : Binding) : Prop := ∀ d ∈ b.report, d.file = none

theorem steps_placeless (t : Tree) : Steps t Placeless where
  makes _ kept _ makes := by
    have more {b b' : Binding} {range : Range} {message : Message} {arguments : List String}
        {d : Diagnostic} (kept : Placeless b) (report : b'.report = b.report ++ [d])
        (about : (Diagnostic.about range message arguments).toOption = some d) : Placeless b' := by
      intro d' hd
      rw [report, List.mem_append, List.mem_singleton] at hd
      rcases hd with old | rfl
      · exact kept d' old
      · obtain ⟨span, rfl⟩ := exists_eq_plain about
        rfl
    cases makes with
    | nameless _ complains =>
      obtain ⟨_, -, about⟩ := Option.bind_eq_some_iff.1 complains
      exact more kept rfl about
    | unkept _ _ => exact kept
    | entered _ _ _ => exact kept
    | refused _ _ _ complains =>
      obtain ⟨_, -, about⟩ := Option.bind_eq_some_iff.1 complains
      exact more kept rfl about
  change _ _ kept _ := kept
  register _ _ kept := kept

theorem placeless_script {t : Tree} {symbols : SymbolTable} {root : NodeId}
    {answer : Option SymbolId} {b : Binding} (sound : Sound t symbols)
    (run : script t root ⟨symbols, []⟩ = .ok (answer, b)) : Sound t b.symbols ∧ Placeless b :=
  (steps_placeless t).script sound (fun _ hd => by cases hd) run

end Binding

namespace Program

variable {t : Tree} {p before after : Program} {name : String} {d : Diagnostic}

/-- The scripts of a program have the files that belong to their names. -/
def Filed (p : Program) : Prop :=
  ∀ script ∈ p.scripts.values, script.file = (QualifiedName.parse script.name).file

theorem filed_ofTree (run : ofTree t = .ok p) : p.Filed := by
  refine foldlM_keeps (P := Filed) (p := ⟨t, {}, ∅, []⟩) (fun _ hm => by cases hm) ?_ run
  intro p root answer b name _ filed script hm
  cases answer with
  | none => exact filed script hm
  | some id =>
    change script ∈ (enter p.scripts _).values at hm
    unfold enter at hm
    dsimp only at hm
    split at hm
    · exact filed script hm
    · rcases Registry.mem_values_insert hm with rfl | old
      · rfl
      · exact filed script old

/-- A script of a tree reports a diagnostic, when it is bound after the scripts before it or when it
is checked in the whole program. -/
inductive Reports (t : Tree) : String → Diagnostic → Prop where
  | binding {before after : Program} {done rest : List NodeId} {root : NodeId}
      {name : Option String} {new : Report} {d : Diagnostic}
      (split : t.roots = done ++ root :: rest)
      (sofar : done.foldlM bindScript ⟨t, {}, ∅, []⟩ = .ok before)
      (run : before.bindScript root = .ok after) (named : t.scriptName root = .ok name)
      (added : after.bindReport = before.bindReport ++ new) (hd : d ∈ new) :
      Reports t (name.getD "") d
  | checking {p : Program} {script : ProgramScript} {report : Report} {d : Diagnostic}
      (bound : ofTree t = .ok p) (listed : script ∈ p.scripts.values)
      (run : p.check script = .ok report) (hd : d ∈ report) : Reports t script.name d

/-- What one more script reports when it is bound. -/
theorem bindReport_bindScript {root : NodeId} (sound : Binding.Sound before.tree before.symbols)
    (run : before.bindScript root = .ok after) :
    ∃ name new, before.tree.scriptName root = .ok name ∧
      after.bindReport = before.bindReport ++ new ∧
      ∀ d ∈ new, d.file = some (QualifiedName.parse (name.getD "")).file := by
  rw [bindScript_eq] at run
  obtain ⟨⟨answer, b⟩, bound, rest⟩ := exists_of_bind_eq_ok run
  obtain ⟨name, named, made⟩ := exists_of_bind_eq_ok rest
  cases made
  exact ⟨name, _, named, rfl, Report.file_assignFile (Binding.placeless_script sound bound).2⟩

theorem sound_foldlM {roots : List NodeId}
    (run : roots.foldlM bindScript ⟨t, {}, ∅, []⟩ = .ok p) : Binding.Sound p.tree p.symbols :=
  foldlM_keeps (P := fun p => Binding.Sound p.tree p.symbols) (p := ⟨t, {}, ∅, []⟩) (.empty t)
    (fun bound sound => (Binding.placeless_script sound bound).1) run

/-- What a script reports is about its file. -/
theorem Reports.file (h : Reports t name d) : d.file = some (QualifiedName.parse name).file := by
  cases h with
  | @binding before _ _ _ _ _ _ _ split sofar run named added hd =>
    obtain ⟨found', new', named', added', files⟩ := bindReport_bindScript (sound_foldlM sofar) run
    rw [show before.tree = t from tree_foldlM sofar, named] at named'
    cases named'
    rw [added, List.append_cancel_left_eq] at added'
    exact files d (added' ▸ hd)
  | checking bound listed run hd =>
    rw [check_files run d hd, filed_ofTree bound _ listed]

/-- What was reported in the course of binding was reported by the scripts that were bound. -/
theorem mem_bindReport {done rest : List NodeId} (split : t.roots = done ++ rest)
    (sofar : done.foldlM bindScript ⟨t, {}, ∅, []⟩ = .ok before)
    (run : rest.foldlM bindScript before = .ok after) (hd : d ∈ after.bindReport) :
    d ∈ before.bindReport ∨ ∃ name, Reports t name d := by
  induction rest generalizing done before with
  | nil =>
    cases run
    exact .inl hd
  | cons root rest ih =>
    rw [List.foldlM_cons] at run
    obtain ⟨next, first, run⟩ := exists_of_bind_eq_ok run
    obtain ⟨found, new, named, added, -⟩ := bindReport_bindScript (sound_foldlM sofar) first
    rw [show before.tree = t from tree_foldlM sofar] at named
    have further : (done ++ [root]).foldlM bindScript ⟨t, {}, ∅, []⟩ = .ok next := by
      rw [List.foldlM_append, sofar]
      exact (congrArg (· >>= pure) first).trans rfl
    rcases ih (by simp [split]) further run with old | reported
    · rw [added, List.mem_append] at old
      exact old.imp id fun hd => ⟨_, .binding split sofar first named added hd⟩
    · exact .inr reported

/-- Whatever is wrong with a program is reported by one of its scripts. -/
theorem exists_reports {all : Report} (bound : ofTree t = .ok p) (run : p.checkAll = .ok all)
    (hd : d ∈ all) : ∃ name, Reports t name d := by
  obtain ⟨reports, checked, sorted⟩ := exists_of_bind_eq_ok run
  cases sorted
  rw [Report.sorted, List.mem_mergeSort, List.mem_append] at hd
  rcases hd with hd | hd
  · exact (mem_bindReport (List.nil_append _).symm rfl bound hd).resolve_left (by simp)
  · obtain ⟨report, hreport, hd⟩ := List.mem_flatten.1 hd
    obtain ⟨script, listed, checked⟩ := exists_of_mem_mapM checked hreport
    exact ⟨_, .checking bound listed checked hd⟩

/-- Scripts of a program with regular names have different files. -/
theorem eq_of_file {script other : ProgramScript} (bound : ofTree t = .ok p)
    (hm : script ∈ p.scripts.values) (hm' : other ∈ p.scripts.values)
    (regular : QualifiedName.Regular script.name) (regular' : QualifiedName.Regular other.name)
    (same : script.file = other.file) : script = other := by
  have indexed := indexed_ofTree bound
  rw [filed_ofTree bound _ hm, filed_ofTree bound _ hm'] at same
  have found := indexed.script? hm
  rw [QualifiedName.file_injective regular regular' same, indexed.script? hm'] at found
  exact (Option.some.inj found).symm

/-- Joining undoes cutting, except for names that are led by their only colon, and cutting undoes
joining. Regular names have different files if they are different. So two scripts never report
against the same file, and whatever is wrong with a program is reported by a script against its own
file. -/
theorem names_and_files :
    (∀ fullName : String, (QualifiedName.parse fullName).join = fullName ↔
      ¬ QualifiedName.ColonLed fullName) ∧
    (∀ container name : String, ':' ∉ name.toList →
      QualifiedName.parse (qualify container name) = ⟨container, name⟩) ∧
    (∀ a b : String, QualifiedName.Regular a → QualifiedName.Regular b →
      (QualifiedName.parse a).file = (QualifiedName.parse b).file → a = b) ∧
    (∀ t a b d d', Reports t a d → Reports t b d' → QualifiedName.Regular a →
      QualifiedName.Regular b → a ≠ b → d.file ≠ d'.file) ∧
    ∀ t p, ofTree t = .ok p →
      (∀ script ∈ p.scripts.values, ∀ other ∈ p.scripts.values,
        QualifiedName.Regular script.name → QualifiedName.Regular other.name →
        script ≠ other → script.file ≠ other.file) ∧
      ∀ all, p.checkAll = .ok all → ∀ d ∈ all,
        ∃ name, Reports t name d ∧ d.file = some (QualifiedName.parse name).file := by
  refine ⟨QualifiedName.join_parse_iff, fun container _ => QualifiedName.parse_qualify container,
    fun _ _ => QualifiedName.file_injective, ?_, fun t p bound => ⟨?_, ?_⟩⟩
  · intro t a b d d' reports reports' regular regular' ne same
    rw [reports.file, reports'.file, Option.some.injEq] at same
    exact ne (QualifiedName.file_injective regular regular' same)
  · intro script hm other hm' regular regular' ne same
    exact ne (eq_of_file bound hm hm' regular regular' same)
  · intro all run d hd
    obtain ⟨name, reports⟩ := exists_reports bound run hd
    exact ⟨name, reports, reports.file⟩

/-- A script in a namespace with a variable that lacks a name, and a script outside with the same
short name and an unknown type. -/
def nestedForms : List Form :=
  [.identifier "A:B", .scriptHeader ⟨0⟩ none ∅, .identifier "Int", .typeName ⟨2⟩ false,
    .identifier "", .variableDefinition ⟨3⟩ ⟨4⟩ none ∅, .script ⟨1⟩ [] [⟨5⟩], .identifier "B",
    .scriptHeader ⟨7⟩ none ∅, .identifier "T", .typeName ⟨9⟩ false, .identifier "x",
    .variableDefinition ⟨10⟩ ⟨11⟩ none ∅, .script ⟨8⟩ [] [⟨12⟩]]

theorem nested_scripts_apart :
    (QualifiedName.parse "A::B:").join = "A::B:" ∧ (QualifiedName.parse ":B").join ≠ ":B" ∧
    QualifiedName.parse (qualify ":A" "") = ⟨":A", ""⟩ ∧
    ((QualifiedName.parse "A:B").file = (QualifiedName.parse "B").file → "A:B" = "B") ∧
    ∃ p d d', ofTree (.ofForms nestedForms) = .ok p ∧
      Reports (.ofForms nestedForms) "A:B" d ∧ Reports (.ofForms nestedForms) "B" d' ∧
      QualifiedName.Regular "A:B" ∧ QualifiedName.Regular "B" ∧ d.file ≠ d'.file ∧
      (∃ script ∈ p.scripts.values, ∃ other ∈ p.scripts.values,
        script ≠ other ∧ script.file ≠ other.file) ∧
      ∃ all, p.checkAll = .ok all ∧ ∃ d ∈ all, ∃ name,
        Reports (.ofForms nestedForms) name d ∧ d.file = some (QualifiedName.parse name).file := by
  obtain ⟨joins, cuts, files, reports, whole⟩ := names_and_files
  refine ⟨(joins _).2 (by decide +kernel), mt (joins _).1 (by decide +kernel), cuts _ _ (by simp),
    files _ _ (by decide +kernel) (by decide +kernel), ?_⟩
  obtain ⟨after, first, complains⟩ := exists_ok_of_any
    (o := bindScript ⟨.ofForms nestedForms, {}, ∅, []⟩ ⟨6⟩)
    (f := fun after => after.bindReport ≠ []) (by decide +kernel)
  obtain ⟨d, hd⟩ := List.exists_mem_of_ne_nil _ (of_decide_eq_true complains)
  have split : (Tree.ofForms nestedForms).roots = [] ++ ⟨6⟩ :: [⟨13⟩] := by decide +kernel
  have called : (Tree.ofForms nestedForms).scriptName ⟨6⟩ = .ok (some "A:B") := by decide +kernel
  have said : Reports (.ofForms nestedForms) "A:B" d := .binding split rfl first called rfl hd
  obtain ⟨p, bound, holds⟩ := exists_ok_of_any (o := ofTree (.ofForms nestedForms))
    (f := fun p : Program => decide (p.scripts.values.map (·.name) = ["A:B", "B"]) &&
      decide (p.bindReport ≠ []) && p.scripts.values.all fun script =>
        ((p.checkScript script.name).toOption.any fun _ => true) &&
          (script.name = "A:B" || (p.check script).toOption.any (· ≠ [])))
    (by decide +kernel)
  simp only [Bool.and_eq_true, decide_eq_true_iff, List.all_eq_true, Bool.or_eq_true] at holds
  obtain ⟨⟨names, reported⟩, each⟩ := holds
  obtain ⟨script, hm, named⟩ :=
    List.mem_map.1 (show "A:B" ∈ p.scripts.values.map (·.name) by simp [names])
  obtain ⟨other, hm', named'⟩ :=
    List.mem_map.1 (show "B" ∈ p.scripts.values.map (·.name) by simp [names])
  have ne : script ≠ other := by
    rintro rfl
    simp [named] at named'
  obtain ⟨report, checked, filled⟩ :=
    exists_ok_of_any ((each other hm').2.resolve_left (by simp [named']))
  obtain ⟨d', hd'⟩ := List.exists_mem_of_ne_nil _ (of_decide_eq_true filled)
  have said' : Reports (.ofForms nestedForms) "B" d' := named' ▸ .checking bound hm' checked hd'
  have checks : p.Checks := by
    intro script hm
    obtain ⟨r, run, -⟩ := exists_ok_of_any (each script hm).1
    exact ⟨r, run⟩
  have all := checkAll_eq (indexed_ofTree bound) checks
  obtain ⟨d₂, hd₂⟩ := List.exists_mem_of_ne_nil _ reported
  have inside : d₂ ∈ Report.sorted (p.bindReport ++ p.scripts.values.flatMap p.reportOf) := by
    rw [Report.sorted, List.mem_mergeSort]
    exact List.mem_append_left _ hd₂
  have regular : QualifiedName.Regular "A:B" := by decide +kernel
  have regular' : QualifiedName.Regular "B" := by decide +kernel
  exact ⟨p, d, d', bound, said, said', regular, regular',
    reports _ _ _ _ _ said said' regular regular' (by decide),
    ⟨script, hm, other, hm', ne, (whole _ p bound).1 script hm other hm' (named ▸ regular)
      (named' ▸ regular') ne⟩, _, all, d₂, inside, (whole _ p bound).2 _ all d₂ inside⟩

end Program

end PapyrusAnalysis
