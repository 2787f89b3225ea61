import PapyrusAnalysis.Proofs.Session.Inheritance

/-!
# The types of structs

The types of the structs of a script are made together with that of the script, which finds them by
their names. So whatever has been asked, the type of a struct belongs to a member of a script, and
what the type of a script finds under a name is the type of one of its own structs.

## Main definitions

* `Codebase.HasStruct`: a struct is a member of a script.
* `Session.Lodged`: what is true of the types of structs in every session if scripts stand apart.
-/

namespace PapyrusAnalysis

/-- A struct is a member of a script. -/
def Codebase.HasStruct (c : Codebase) (script : SymbolId) (entry : SymbolId × Symbol) : Prop :=
  (∃ above, c.symbols.get? script = some above ∧ above.kind = .script ∧ entry.1 ∈ above.members) ∧
    c.symbols.get? entry.1 = some entry.2 ∧ entry.2.kind = .struct

namespace Session

variable {c : Codebase} {s : Session}

/-- What is true of the types of structs in every session if scripts stand apart. -/
structure Lodged (c : Codebase) (s : Session) : Prop extends Settled c s where
  structs : ∀ {id info}, s.types.get? id = some info → info.isStruct →
    ∃ script entry, c.HasStruct script entry ∧ info.symbol = entry.1
  /-- What a script finds under a name is the type of one of its structs. -/
  tables : ∀ {type info table key id}, s.types.get? type = some info →
    info.form = .script table → table.find? key = some id → ∃ entry,
      c.HasStruct info.symbol entry ∧ nameKey entry.2 = key ∧
        s.types.get? id = some (structInfo type entry id)

theorem Lodged.withPending (h : Lodged c s) (pending : List NodeId) :
    Lodged c { s with pending := pending } where
  toSettled := h.toSettled.withPending pending
  structs := h.structs
  tables := h.tables

theorem lodged_initial (room : c.symbols.base + c.symbols.size + 7 ≤ SymbolId.limit) :
    Lodged c (initial c) where
  toSettled := settled_initial room
  structs hi isStruct := by
    obtain ⟨⟨kind, hf, -⟩, -⟩ := infos_initial hi
    simp [TypeInfo.isStruct, hf] at isStruct
  tables hi hf := by
    obtain ⟨⟨kind, hf', -⟩, -⟩ := infos_initial hi
    cases hf.symm.trans hf'

theorem Lodged.withScript (h : Lodged c s) (apart : c.ScriptsApart) {script : SymbolId}
    {symbol : Symbol} {structs : List (SymbolId × Symbol)}
    (hstructs : ∀ entry ∈ structs, c.HasStruct script entry)
    (hs : c.symbols.get? script = some symbol) (kind : symbol.kind = .script)
    (fresh : s.named.find? (qualifiedKey symbol) = none) :
    Lodged c (s.withScript script symbol structs) where
  toSettled := h.toSettled.withScript apart (fun entry he => (hstructs entry he).2) hs kind fresh
  structs {id info} hi isStruct := by
    rcases TypeTable.get?_extend_cases hi with old | ⟨i, _, -, new, rfl⟩
    · exact h.structs old isStruct
    · rcases scriptBlock_cases new with ⟨-, rfl⟩ | ⟨j, entry, -, hj, rfl⟩
      · cases isStruct
      · exact ⟨script, entry, hstructs entry (List.mem_of_getElem? hj), rfl⟩
  tables {type info table key id} hi hf hfind := by
    rcases TypeTable.get?_extend_cases hi with old | ⟨i, _, rfl, new, rfl⟩
    · obtain ⟨entry, has, named, there⟩ := h.tables old hf hfind
      exact ⟨entry, has, named, (extends_withScript s script symbol structs).types there⟩
    · rcases scriptBlock_cases new with ⟨rfl, rfl⟩ | ⟨j, entry, -, -, rfl⟩
      · cases hf
        rcases find?_enterAll hfind with none | ⟨j, entry, hentry, named, rfl⟩
        · cases none
        · exact ⟨entry, hstructs entry (List.mem_of_getElem? hentry), named,
            get?_withScript_struct s script symbol hentry⟩
      · cases hf

theorem Lodged.withArray (h : Lodged c s) {element : String}
    (room : s.nextSymbol + 27 ≤ SymbolId.limit) : Lodged c (s.withArray element) where
  toSettled := h.toSettled.withArray room
  structs {id info} hi isStruct := by
    rcases get?_withArray_cases hi with old | ⟨-, rfl⟩
    · exact h.structs old isStruct
    · cases isStruct
  tables {type info table key id} hi hf hfind := by
    rcases get?_withArray_cases hi with old | ⟨-, rfl⟩
    · obtain ⟨entry, has, named, there⟩ := h.tables old hf hfind
      exact ⟨entry, has, named, (extends_withArray s element).types there⟩
    · cases hf

/-- The structs that are made with a script are members of it. -/
theorem hasStruct_of_select (sound : Binding.Sound c.tree c.symbols) {script : SymbolId}
    {symbol : Symbol} (hs : c.symbols.get? script = some symbol) (kind : symbol.kind = .script) :
    ∀ entry ∈ s.selectNumbered c symbol.members (·.kind = .struct), c.HasStruct script entry := by
  intro entry he
  refine ⟨⟨symbol, hs, kind, ?_⟩, select_structs sound s hs entry he⟩
  rw [selectNumbered_members sound s hs] at he
  exact (mem_select.1 he).1

/-- Questions that are answered without a fault, and what they leave true of structs. -/
def lodging (c : Codebase) : Conduct Session := { settling c with keeps := Lodged c }

theorem steps_lodging (firm : c.Firm) : Query.Steps c (lodging c) where
  scriptType id := by
    intro s answer t kept run
    refine ⟨((steps_settling firm).scriptType id kept.toSettled run).1, ?_⟩
    rcases kept.scriptType_cases run with rfl | ⟨symbol, hs, kind, fresh, rfl⟩
    · exact kept
    · exact kept.withScript firm.apart (hasStruct_of_select firm.symbols hs kind) hs kind fresh
  arrayOf element := by
    intro s answer t kept named run
    have settled := named.imp fun _ => Lodged.toSettled
    refine ⟨((steps_settling firm).arrayOf element kept.toSettled settled run).1, ?_⟩
    rcases kept.arrayOf_cases run with rfl | ⟨room, rfl⟩
    · exact kept
    · exact kept.withArray room
  pending {s t node} kept := ⟨kept.withPending _, fun grows kept' =>
    ⟨⟨⟨grows.grown.types, grows.grown.synthetic⟩, grows.named⟩, kept'.withPending _⟩⟩

/-- Whatever has been asked, the structs of a session belong to scripts. -/
theorem Arises.lodged (arises : s.Arises c) (firm : c.Firm) : s.Lodged c := by
  obtain ⟨first, started, leads⟩ := arises
  rw [start_eq] at started
  split at started
  · cases started
    exact (leads.steady (steps_lodging firm) (lodged_initial (by assumption))).2
  · cases started

end Session

end PapyrusAnalysis
