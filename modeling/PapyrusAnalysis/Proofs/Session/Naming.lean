import PapyrusAnalysis.Proofs.Binding.Steps
import PapyrusAnalysis.Proofs.Binding.Surroundings
import PapyrusAnalysis.Proofs.Session.Canonical
import PapyrusAnalysis.Proofs.Session.Questions

/-!
# Names keep their types

A session looks up the types of scripts and structs in one table, by their qualified names in lower
case. Making the type of a script also enters those of its structs, so the entry of a script can be
replaced by that of a struct with the same qualified name. If there is no such struct, then whatever
is asked, an entry of a script stays as it is and leads to the type of that script, and a name that
has been resolved is resolved in the same way ever after.

## Main definitions

* `Codebase.ScriptsApart`: no script has the qualified name of another script or of a struct.
* `Session.Founded`: what is true of every session if scripts stand apart.
* `Session.naming`: how sessions grow then.
-/

namespace PapyrusAnalysis

/-- The symbols of an array are not members of anything but the array. -/
theorem ArrayMembers.members_block {element : String} {start : Nat} {symbol : Symbol}
    (h : symbol ∈ block element start) {member : SymbolId} (hm : member ∈ symbol.members) :
    ∃ i < 27, member = ⟨start + i⟩ := by
  have bare {offset : Nat} {signatures : List Signature} :
      ∀ symbol ∈ functionBlocks element start offset signatures, symbol.members = [] := by
    induction signatures generalizing offset with
    | nil => simp [functionBlocks]
    | cons signature rest ih =>
      intro symbol hs
      simp only [functionBlocks, functionBlock, List.cons_append, List.mem_cons, List.mem_append]
        at hs
      rcases hs with rfl | hs | hs
      · rfl
      · obtain ⟨place, slot, -, rfl⟩ := mem_parameterSymbols hs
        rfl
      · exact ih symbol hs
  simp only [block, List.mem_cons, List.mem_append, List.not_mem_nil, or_false] at h
  rcases h with rfl | h | rfl
  · obtain ⟨i, hi, rfl⟩ := List.mem_map.1 hm
    have inside : ∀ i ∈ offsets 1 functions ++ [26], i < 27 := by decide
    exact ⟨i, inside i hi, rfl⟩
  · rw [bare symbol h] at hm
    cases hm
  · cases hm

/-- Every symbol of an array has a name. -/
theorem ArrayMembers.name_block {element : String} {start : Nat} {symbol : Symbol}
    (h : symbol ∈ block element start) : symbol.name ≠ "" := by
  have titled {offset : Nat} {signatures : List Signature}
      (names : ∀ signature ∈ signatures, signature.name ≠ "" ∧
        ∀ slot ∈ signature.slots, slot.name ≠ "") :
      ∀ symbol ∈ functionBlocks element start offset signatures, symbol.name ≠ "" := by
    induction signatures generalizing offset with
    | nil => simp [functionBlocks]
    | cons signature rest ih =>
      intro symbol hs
      simp only [functionBlocks, functionBlock, List.cons_append, List.mem_cons, List.mem_append]
        at hs
      rcases hs with rfl | hs | hs
      · exact (names signature (by simp)).1
      · obtain ⟨place, slot, hslot, rfl⟩ := mem_parameterSymbols hs
        exact (names signature (by simp)).2 slot hslot
      · exact ih (fun other ho => names other (by simp [ho])) symbol hs
  simp only [block, List.mem_cons, List.mem_append, List.not_mem_nil, or_false] at h
  rcases h with rfl | h | rfl
  · intro none
    have := congrArg String.toList none
    simp [arraySymbol, arrayName] at this
  · exact titled (by decide) symbol h
  · exact (by decide : "Length" ≠ "")

namespace Codebase

variable {c : Codebase}

/-- No script has the qualified name of another script or of a struct, in any case. -/
def ScriptsApart (c : Codebase) : Prop :=
  ∀ a b x y, c.symbols.get? a = some x → c.symbols.get? b = some y → x.kind = .script →
    namesType y → Text.lowercase x.qualifiedName = Text.lowercase y.qualifiedName → a = b

theorem Unambiguous.scriptsApart (h : c.Unambiguous) : c.ScriptsApart := by
  intro a b x y hx hy script names same
  exact h a b x y hx hy (by simp [namesType, script]) names same

/-- A codebase whose symbols fit its tree, in which scripts stand apart and can be named. -/
structure Firm (c : Codebase) : Prop where
  apart : c.ScriptsApart
  symbols : Binding.Sound c.tree c.symbols
  scripts : ∀ {name id}, c.scripts.find? name = some id → ∃ symbol,
    c.symbols.get? id = some symbol ∧ symbol.kind = .script ∧
      Text.lowercase symbol.name = Text.lowercase name

/-- The scripts that can be named are those that the symbols know by their names. -/
theorem Bound.find?_eq (bound : c.Bound) (name : String) :
    c.scripts.find? name = c.symbols.scripts.find? (Text.lowercase name) := by
  obtain ⟨b, all, same⟩ := bound.exists_binding
  cases bound with
  | binding run => rfl
  | @program t p run =>
    obtain ⟨⟨answers, b'⟩, mapped, last⟩ := exists_of_bind_eq_ok all
    cases last
    have tree : p.tree = t := Program.tree_foldlM run
    rw [show p.codebase.tree = t from tree] at mapped
    have empty : Program.Mirrored ⟨t, {}, ∅, []⟩ := ⟨rfl, by simp⟩
    obtain ⟨q, made, -, mirrored⟩ := Program.foldlM_of_mapM empty (.empty t) rfl mapped
    cases run.symm.trans made
    exact mirrored.find? name

/-- What holds of every bound codebase in which scripts stand apart, whatever its tree is like. -/
theorem Bound.firm (bound : c.Bound) (apart : c.ScriptsApart) : c.Firm where
  apart := apart
  symbols := by
    obtain ⟨b, run, same⟩ := bound.exists_binding
    exact same ▸ Binding.sound_of_ofTree run
  scripts {name id} found := by
    obtain ⟨b, run, same⟩ := bound.exists_binding
    rw [bound.find?_eq, ← same] at found
    rw [← same]
    exact (Binding.sound_of_ofTree run).scripts found

theorem Firm.owns (firm : c.Firm) {name : String} {id : SymbolId}
    (h : c.scripts.find? name = some id) : c.symbols.owns id := by
  obtain ⟨symbol, hs, -⟩ := firm.scripts h
  exact SymbolTable.owns_of_get? hs

end Codebase

namespace Session

variable {c : Codebase} {s t : Session}

/-- A symbol is one of the codebase or of the session. -/
def Knows (c : Codebase) (s : Session) (id : SymbolId) : Prop :=
  ∃ symbol, s.symbol? c id = some symbol

theorem Knows.extends {id : SymbolId} (h : s.Knows c id) (e : s.Extends t) : t.Knows c id := by
  obtain ⟨symbol, hs⟩ := h
  exact ⟨symbol, e.symbol? hs⟩

theorem knows_of_owns {id : SymbolId} (s : Session) (h : c.symbols.owns id) : s.Knows c id := by
  obtain ⟨symbol, hs⟩ := SymbolTable.owns_iff.1 h
  exact ⟨symbol, (symbol?_own s h).trans hs⟩

/-- The symbol of a type is known. It is declared if the type is that of a script or struct, and one
of an intrinsic type belongs to an intrinsic type only. -/
def Belongs (c : Codebase) (s : Session) (info : TypeInfo) : Prop :=
  ∃ symbol, s.symbol? c info.symbol = some symbol ∧
    (info.isIntrinsic → symbol.kind = .intrinsic) ∧
    (∀ node, symbol.declaration = some node → Codebase.namesType symbol)

/-- What is true of every session if scripts stand apart. -/
structure Founded (c : Codebase) (s : Session) : Prop where
  base : s.synthetic.base = c.symbols.base + c.symbols.size
  room : s.nextSymbol ≤ SymbolId.limit
  /-- Symbols and types carry the numbers under which they are found. -/
  numbered : s.synthetic.Numbered
  typeNumbered : ∀ {id info}, s.types.get? id = some info → info.id = id
  /-- The session's own symbols have no declarations, and the scripts among them are arrays. -/
  synthetic : ∀ {id symbol}, s.synthetic.get? id = some symbol → symbol.declaration = none ∧
    symbol.kind ≠ .struct ∧ (symbol.kind = .script → symbol.isGeneratedArray)
  members : ∀ {id symbol member}, s.synthetic.get? id = some symbol → member ∈ symbol.members →
    ¬ c.symbols.owns member ∧ s.Knows c member
  titled : ∀ {id symbol}, s.synthetic.get? id = some symbol → symbol.name ≠ ""
  types : ∀ {id info}, s.types.get? id = some info → s.Belongs c info
  arraySymbols : ∀ {symbol id}, s.arraySymbols.find? symbol = some id → ¬ c.symbols.owns symbol
  scripts : ∀ {id symbol type}, c.symbols.get? id = some symbol → symbol.kind = .script →
    s.named.find? (qualifiedKey symbol) = some type → s.ScriptAt id type

theorem Belongs.extends {info : TypeInfo} (h : s.Belongs c info) (e : s.Extends t) :
    t.Belongs c info := by
  obtain ⟨symbol, hs, rest⟩ := h
  exact ⟨symbol, e.symbol? hs, rest⟩

/-- A symbol carries the number under which it is found. -/
theorem Founded.id_eq (h : Founded c s) (firm : c.Firm) {id : SymbolId} {symbol : Symbol}
    (hs : s.symbol? c id = some symbol) : symbol.id = id := by
  by_cases owned : c.symbols.owns id
  · exact firm.symbols.numbered ((symbol?_own s owned).symm.trans hs)
  · rw [symbol?_synthetic s owned] at hs
    exact h.numbered hs

theorem Founded.selectNumbered_eq (h : Founded c s) (firm : c.Firm) (ids : List SymbolId)
    (wanted : Symbol → Bool) : s.selectNumbered c ids wanted = s.select c ids wanted :=
  Session.selectNumbered_eq fun _ _ _ hs => h.id_eq firm hs

theorem Founded.withPending (h : Founded c s) (pending : List NodeId) :
    Founded c { s with pending := pending } where
  base := h.base
  room := h.room
  numbered := h.numbered
  typeNumbered := h.typeNumbered
  synthetic := h.synthetic
  members := h.members
  titled := h.titled
  types := h.types
  arraySymbols := h.arraySymbols
  scripts := h.scripts

theorem getElem?_intrinsicInfos {next i : Nat} {kinds : List Intrinsic} {make : TypeId → TypeInfo}
    (h : (intrinsicInfos next kinds)[i]? = some make) : ∃ kind, kinds[i]? = some kind ∧
      make = (⟨·, kind.name, kind.name, ⟨next + i⟩, .intrinsic kind⟩) := by
  induction kinds generalizing next i with
  | nil => cases h
  | cons kind kinds ih =>
    cases i with
    | zero =>
      cases h
      exact ⟨kind, rfl, rfl⟩
    | succ i =>
      obtain ⟨other, found, rfl⟩ := ih h
      exact ⟨other, found, by rw [Nat.add_assoc, Nat.add_comm 1]⟩

/-- The intrinsic types and their symbols are made in the same order. -/
theorem get?_initial {id : TypeId} {info : TypeInfo}
    (h : (initial c).types.get? id = some info) :
    ∃ kind, Intrinsic.all[id.index]? = some kind ∧ info.form = .intrinsic kind ∧ info.id = id ∧
      (initial c).synthetic.get? info.symbol = some (intrinsicSymbol kind info.symbol) := by
  rcases TypeTable.get?_extend_cases h with none | ⟨i, make, rfl, new, rfl⟩
  · simp [TypeTable.get?] at none
  obtain ⟨kind, hk, rfl⟩ := getElem?_intrinsicInfos new
  refine ⟨kind, by simpa [TypeTable.size] using hk, rfl, rfl, ?_⟩
  refine (SymbolTable.get?_extend (.startingAt (c.symbols.base + c.symbols.size)) _ i).trans ?_
  rw [getElem?_intrinsicSymbols, hk]
  rfl

theorem founded_initial (room : c.symbols.base + c.symbols.size + 7 ≤ SymbolId.limit) :
    Founded c (initial c) where
  base := rfl
  room := room
  numbered := (sound_initial c room).numbered
  typeNumbered hi := by
    obtain ⟨-, -, -, same, -⟩ := get?_initial hi
    exact same
  synthetic := (sound_initial c room).synthetic
  members {id symbol member} hs hm := by
    rcases SymbolTable.get?_extend_cases hs with h | ⟨i, -, h⟩
    · simp [SymbolTable.get?, SymbolTable.startingAt] at h
    · rw [getElem?_intrinsicSymbols] at h
      obtain ⟨kind, -, rfl⟩ := Option.map_eq_some_iff.1 h
      cases hm
  titled {id symbol} hs := by
    rcases SymbolTable.get?_extend_cases hs with h | ⟨i, -, h⟩
    · simp [SymbolTable.get?, SymbolTable.startingAt] at h
    · rw [getElem?_intrinsicSymbols] at h
      obtain ⟨kind, -, rfl⟩ := Option.map_eq_some_iff.1 h
      change kind.name ≠ ""
      cases kind <;> decide
  types {id info} hi := by
    obtain ⟨kind, -, -, -, made⟩ := get?_initial hi
    have foreign : ¬ c.symbols.owns info.symbol :=
      not_owns_of_base (s := initial c) rfl (infos_initial hi).2
    exact ⟨intrinsicSymbol kind info.symbol, (symbol?_synthetic _ foreign).trans made, fun _ => rfl,
      fun node h => by cases h⟩
  arraySymbols h := by cases h
  scripts _ _ h := by cases h

section

variable {script : SymbolId} {symbol : Symbol} {structs : List (SymbolId × Symbol)}
  (hstructs : ∀ entry ∈ structs, c.symbols.get? entry.1 = some entry.2 ∧ entry.2.kind = .struct)

include hstructs

/-- The structs of a script leave the entries of scripts alone. -/
theorem find?_withScript (apart : c.ScriptsApart) (script : SymbolId) (symbol : Symbol)
    {id : SymbolId} {other : Symbol} (ho : c.symbols.get? id = some other)
    (isScript : other.kind = .script) :
    (s.withScript script symbol structs).named.find? (qualifiedKey other) =
      if qualifiedKey symbol = qualifiedKey other then some ⟨s.types.size⟩
      else s.named.find? (qualifiedKey other) := by
  have unlike : ∀ entry ∈ structs, qualifiedKey entry.2 ≠ qualifiedKey other := by
    intro entry hentry same
    obtain ⟨known, isStruct⟩ := hstructs entry hentry
    cases apart id entry.1 other entry.2 ho known isScript (by simp [Codebase.namesType, isStruct])
      same.symm
    cases ho.symm.trans known
    cases isScript.symm.trans isStruct
  exact (find?_enterAll_of_ne unlike).trans (Registry.find?_insert _ _ _ _)

theorem Founded.withScript (h : Founded c s) (apart : c.ScriptsApart)
    (hs : c.symbols.get? script = some symbol) (kind : symbol.kind = .script) :
    Founded c (s.withScript script symbol structs) := by
  have e := extends_withScript s script symbol structs
  have own {other : SymbolId} {found : Symbol} (hf : c.symbols.get? other = some found) :
      (s.withScript script symbol structs).symbol? c other = some found :=
    (symbol?_own _ (SymbolTable.owns_of_get? hf)).trans hf
  refine ⟨h.base, h.room, h.numbered, ?_, h.synthetic,
    fun hsyn hm => (h.members hsyn hm).imp_right (·.extends e), h.titled, ?_, h.arraySymbols, ?_⟩
  · intro id info hi
    rcases TypeTable.get?_extend_cases hi with old | ⟨i, _, -, new, rfl⟩
    · exact h.typeNumbered old
    · rcases scriptBlock_cases new with ⟨-, rfl⟩ | ⟨j, entry, -, -, rfl⟩ <;> rfl
  · intro id info hi
    rcases TypeTable.get?_extend_cases hi with old | ⟨i, _, -, new, rfl⟩
    · exact (h.types old).extends e
    rcases scriptBlock_cases new with ⟨-, rfl⟩ | ⟨j, entry, -, hj, rfl⟩
    · refine ⟨symbol, own hs, ?_, fun _ _ => by simp [Codebase.namesType, kind]⟩
      intro intrinsic
      cases intrinsic
    · obtain ⟨known, isStruct⟩ := hstructs entry (List.mem_of_getElem? hj)
      refine ⟨entry.2, own known, ?_, fun _ _ => by simp [Codebase.namesType, isStruct]⟩
      intro intrinsic
      cases intrinsic
  · intro id other type ho isScript hfind
    rw [find?_withScript hstructs apart script symbol ho isScript] at hfind
    split at hfind
    · rename_i same
      cases apart id script other symbol ho hs isScript (by simp [Codebase.namesType, kind])
        same.symm
      cases hfind
      exact ⟨_, get?_withScript_script s script symbol structs, rfl, rfl⟩
    · exact (h.scripts ho isScript hfind).extends e

end

theorem Founded.withArray (h : Founded c s) {element : String}
    (room : s.nextSymbol + 27 ≤ SymbolId.limit) : Founded c (s.withArray element) := by
  have e := extends_withArray s element
  have synthetic : (s.withArray element).synthetic =
      s.synthetic.extend (ArrayMembers.block element s.nextSymbol) := rfl
  have foreign (i : Nat) : ¬ c.symbols.owns ⟨s.nextSymbol + i⟩ :=
    not_owns_of_base h.base
      (Nat.le_trans (Nat.le_add_right _ s.synthetic.size) (Nat.le_add_right _ i))
  have placed (i : Nat) : (s.withArray element).symbol? c ⟨s.nextSymbol + i⟩ =
      (ArrayMembers.block element s.nextSymbol)[i]? :=
    (symbol?_synthetic _ (foreign i)).trans (SymbolTable.get?_extend s.synthetic _ i)
  refine ⟨?_, ?_, ?_, ?_, ?_, ?_, ?_, ?_, ?_, ?_⟩
  · rw [synthetic, SymbolTable.base_extend, h.base]
  · rw [nextSymbol, synthetic, SymbolTable.base_extend, SymbolTable.size_extend,
      ArrayMembers.length_block, ← Nat.add_assoc]
    exact room
  · exact h.numbered.extend (ArrayMembers.consecutive_block element s.nextSymbol)
  · intro id info hi
    rcases get?_withArray_cases hi with old | ⟨-, rfl⟩
    · exact h.typeNumbered old
    · rfl
  · intro id symbol hs
    rcases SymbolTable.get?_extend_cases hs with old | ⟨i, -, new⟩
    · exact h.synthetic old
    · exact ArrayMembers.mem_block (List.mem_of_getElem? new)
  · intro id symbol member hs hm
    rcases SymbolTable.get?_extend_cases hs with old | ⟨i, -, new⟩
    · exact (h.members old hm).imp_right (·.extends e)
    · obtain ⟨j, inside, rfl⟩ := ArrayMembers.members_block (List.mem_of_getElem? new) hm
      rw [← ArrayMembers.length_block element s.nextSymbol] at inside
      exact ⟨foreign j, _, (placed j).trans (List.getElem?_eq_getElem inside)⟩
  · intro id symbol hs
    rcases SymbolTable.get?_extend_cases hs with old | ⟨i, -, new⟩
    · exact h.titled old
    · exact ArrayMembers.name_block (List.mem_of_getElem? new)
  · intro id info hi
    rcases get?_withArray_cases hi with old | ⟨-, rfl⟩
    · exact (h.types old).extends e
    · exact ⟨_, placed 0, fun intrinsic => (by cases intrinsic),
        fun node declared => by cases declared⟩
  · intro symbol id hfind
    change (s.arraySymbols.insert _ _).find? symbol = some id at hfind
    rw [Registry.find?_insert] at hfind
    split at hfind
    · subst symbol
      exact foreign 0
    · exact h.arraySymbols hfind
  · intro id symbol type hs kind hfind
    exact (h.scripts hs kind hfind).extends e

/-! ## Steps -/

/-- The type of a script is there, or it is made of a symbol of the codebase. -/
theorem Founded.scriptType_cases (h : Founded c s) {id : SymbolId} {answer : Option TypeId}
    (run : Query.scriptType c id s = .ok (answer, t)) :
    t = s ∨ ∃ symbol, c.symbols.get? id = some symbol ∧ symbol.kind = .script ∧
      s.named.find? (qualifiedKey symbol) = none ∧
      t = s.withScript id symbol (s.selectNumbered c symbol.members (·.kind = .struct)) := by
  rw [Query.scriptType_eq] at run
  cases hs : s.symbol? c id with
  | none =>
    rw [hs] at run
    cases run
    exact .inl rfl
  | some symbol =>
    rw [hs] at run
    dsimp only at run
    by_cases other : symbol.kind ≠ .script
    · rw [if_pos other] at run
      cases run
      exact .inl rfl
    rw [if_neg other] at run
    by_cases generated : symbol.isGeneratedArray = true
    · rw [if_pos generated] at run
      cases run
      exact .inl rfl
    rw [if_neg generated] at run
    have kind : symbol.kind = .script := not_not.1 other
    cases hfind : s.named.find? (qualifiedKey symbol) with
    | some type =>
      rw [hfind] at run
      cases run
      exact .inl rfl
    | none =>
      rw [hfind] at run
      cases run
      refine .inr ⟨symbol, ?_, kind, hfind, rfl⟩
      by_cases owns : c.symbols.owns id
      · rwa [symbol?_own s owns] at hs
      · rw [symbol?_synthetic s owns] at hs
        exact absurd ((h.synthetic hs).2.2 kind) generated

/-- An array type is there, or it is made. -/
theorem Founded.arrayOf_cases (h : Founded c s) {element : String} {answer : Option TypeId}
    (run : Query.arrayOf element s = .ok (answer, t)) :
    t = s ∨ s.nextSymbol + 27 ≤ SymbolId.limit ∧ t = s.withArray element := by
  rw [Query.arrayOf_eq element h.room] at run
  split at run
  · cases run
    exact .inl rfl
  split at run
  · rename_i room
    cases run
    exact .inr ⟨room, rfl⟩
  · cases run

/-- Sessions grow, and what has been entered under the names of scripts stays there. -/
structure Retains (c : Codebase) (s t : Session) : Prop where
  grown : s.Extends t
  named : ∀ {id symbol type}, c.symbols.get? id = some symbol → symbol.kind = .script →
    s.named.find? (qualifiedKey symbol) = some type →
      t.named.find? (qualifiedKey symbol) = some type

/-- How sessions grow if scripts stand apart. -/
def naming (c : Codebase) : Conduct Session where
  keeps := Founded c
  grows := Retains c
  refl s := ⟨.refl s, fun _ _ h => h⟩
  trans h h' := ⟨h.grown.trans h'.grown,
    fun hs kind hfind => h'.named hs kind (h.named hs kind hfind)⟩
  tolerates _ := True

theorem steps_naming (firm : c.Firm) : Query.Steps c (naming c) where
  scriptType id := by
    intro s answer t kept run
    rcases kept.scriptType_cases run with rfl | ⟨symbol, hs, kind, fresh, rfl⟩
    · exact ⟨(naming c).refl _, kept⟩
    have structs := select_structs firm.symbols s hs
    refine ⟨⟨extends_withScript s id symbol _, ?_⟩, kept.withScript structs firm.apart hs kind⟩
    intro other found type ho isScript hfind
    rw [find?_withScript structs firm.apart id symbol ho isScript, if_neg, hfind]
    intro same
    rw [same, hfind] at fresh
    cases fresh
  arrayOf element := by
    intro s answer t kept _ run
    rcases kept.arrayOf_cases run with rfl | ⟨room, rfl⟩
    · exact ⟨(naming c).refl _, kept⟩
    · exact ⟨⟨extends_withArray s element, fun _ _ h => h⟩, kept.withArray room⟩
  pending {s t node} kept := ⟨kept.withPending _, fun grows kept' =>
    ⟨⟨⟨grows.grown.types, grows.grown.synthetic⟩, grows.named⟩, kept'.withPending _⟩⟩

/-- Whatever has been asked, a session is founded. -/
theorem Arises.founded (arises : s.Arises c) (firm : c.Firm) : s.Founded c := by
  obtain ⟨first, started, leads⟩ := arises
  rw [start_eq] at started
  split at started
  · cases started
    exact (leads.steady (steps_naming firm) (founded_initial (by assumption))).2
  · cases started

/-- What a full name denotes: an intrinsic type, the type of a script, or a type that the one of
the script in front of the last colon lists under the rest of the name. -/
inductive Denotes (c : Codebase) (s : Session) (name : String) : TypeId → Prop where
  | intrinsic {type : TypeId} (found : TypeTable.intrinsic? name = some type) :
      Denotes c s name type
  | script {script : SymbolId} {type : TypeId} (foreign : TypeTable.intrinsic? name = none)
      (found : c.scripts.find? name = some script) (scriptAt : s.ScriptAt script type) :
      Denotes c s name type
  | struct {type id : TypeId} {info : TypeInfo} {table : Registry String TypeId}
      (foreign : TypeTable.intrinsic? name = none) (absent : c.scripts.find? name = none)
      (inside : (QualifiedName.parse name).container.isEmpty = false)
      (found : c.scripts.find? (QualifiedName.parse name).container = some info.symbol)
      (known : s.types.get? type = some info) (hf : info.form = .script table)
      (listed : table.find? (Text.lowercase (QualifiedName.parse name).name) = some id) :
      Denotes c s name id

theorem Denotes.extends {name : String} {type : TypeId} (h : s.Denotes c name type)
    (e : s.Extends t) : t.Denotes c name type := by
  cases h with
  | intrinsic found => exact .intrinsic found
  | script foreign found scriptAt => exact .script foreign found (scriptAt.extends e)
  | struct foreign absent inside found known hf listed =>
    exact .struct foreign absent inside found (e.types known) hf listed

end Session

/-! ## Answers that last -/

namespace Query

variable {c : Codebase} {s : Session} {α β : Type}

/-- The answer to a question stays the same from now on, and asking for it again makes nothing. -/
def Lasts (c : Codebase) (s : Session) (x : Query α) (post : α → Session → Prop) : Prop :=
  ∀ ⦃a t⦄, x s = .ok (a, t) → s.Retains c t ∧ t.Founded c ∧ post a t ∧
    ∀ ⦃u⦄, u.Founded c → t.Retains c u → x u = .ok (a, u)

namespace Lasts

variable {x : Query α} {post : α → Session → Prop} {last : β → Session → Prop}

theorem pure {a : α} (founded : s.Founded c) (h : post a s) : Lasts c s (Pure.pure a) post := by
  rintro _ _ ⟨⟩
  exact ⟨(Session.naming c).refl s, founded, h, fun _ _ _ => rfl⟩

theorem bind {f : α → Query β} (h : Lasts c s x post)
    (next : ∀ a t, s.Retains c t → t.Founded c → post a t → Lasts c t (f a) last) :
    Lasts c s (x >>= f) last := by
  intro b u run
  obtain ⟨a, t, first, rest⟩ := bind_eq_ok run
  obtain ⟨grows, founded, holds, again⟩ := h first
  obtain ⟨grows', founded', holds', again'⟩ := next a t grows founded holds rest
  refine ⟨(Session.naming c).trans grows grows', founded', holds', ?_⟩
  intro later kept retains
  rw [bind_ok (again kept ((Session.naming c).trans grows' retains))]
  exact again' kept retains

theorem lift {o : Outcome α} {f : α → Query β} (h : ∀ a, o = .ok a → Lasts c s (f a) last) :
    Lasts c s (liftM o >>= f) last := by
  intro b u run
  obtain ⟨a, t, first, rest⟩ := bind_eq_ok run
  obtain ⟨ho, rfl⟩ := liftM_eq_ok first
  obtain ⟨grows, founded, holds, again⟩ := h a ho rest
  refine ⟨grows, founded, holds, ?_⟩
  intro later kept retains
  rw [bind_ok (liftM_ok ho later)]
  exact again kept retains

/-- Reading what no session that follows changes. -/
theorem read {f : Session → α} {g : α → Query β}
    (same : ∀ ⦃u⦄, s.Retains c u → f u = f s) (h : Lasts c s (g (f s)) last) :
    Lasts c s (MonadState.get >>= fun s => g (f s)) last := by
  intro b t run
  obtain ⟨grows, kept, holds, again⟩ := h run
  refine ⟨grows, kept, holds, ?_⟩
  intro u kept' retains
  have read : (MonadState.get >>= fun s => g (f s) : Query β) u = g (f u) u := rfl
  rw [read, same ((Session.naming c).trans grows retains)]
  exact again kept' retains

theorem mapM {f : α → Query β} {xs : List α} (founded : s.Founded c)
    (mono : ∀ {b t u}, Session.Retains c t u → last b t → last b u)
    (body : ∀ a ∈ xs, ∀ t, s.Retains c t → t.Founded c → Lasts c t (f a) last) :
    Lasts c s (xs.mapM f) fun bs t => ∀ b ∈ bs, last b t := by
  induction xs generalizing s with
  | nil => exact .pure founded (by simp)
  | cons a xs ih =>
    rw [List.mapM_cons]
    refine .bind (body a (by simp) s ((Session.naming c).refl s) founded)
      fun b t grows kept hb => ?_
    refine .bind (ih kept fun a' ha' t' grows' => ?_) fun bs t' grows' kept' hbs => .pure kept' ?_
    · exact body a' (by simp [ha']) t' ((Session.naming c).trans grows grows')
    · intro b' hb'
      rcases List.mem_cons.1 hb' with rfl | hb'
      · exact mono grows' hb
      · exact hbs b' hb'

theorem imp {post' : α → Session → Prop} (h : Lasts c s x post)
    (weaken : ∀ a t, s.Retains c t → t.Founded c → post a t → post' a t) :
    Lasts c s x post' := by
  intro a t run
  obtain ⟨grows, founded, holds, again⟩ := h run
  exact ⟨grows, founded, weaken a t grows founded holds, again⟩

end Lasts

/-- A symbol that is known. -/
theorem lasts_symbol? (founded : s.Founded c) {id : SymbolId} (known : s.Knows c id) :
    Lasts c s (symbol? c id) fun found t => t.symbol? c id = found := by
  obtain ⟨symbol, hs⟩ := known
  refine .read (fun u retains => ?_) (.pure founded rfl)
  rw [hs]
  exact retains.grown.symbol? hs

theorem lasts_typeInfo (founded : s.Founded c) (type : TypeId) :
    Lasts c s (typeInfo type) fun info t => t.types.get? type = some info := by
  intro info t run
  obtain ⟨rfl, hi⟩ := typeInfo_eq_ok run
  refine ⟨(Session.naming c).refl t, founded, hi, fun u _ retains => ?_⟩
  exact liftM_ok (TypeTable.get_eq_ok (retains.grown.types hi)) u

/-- A script of the codebase has one type from the time on that it is made. -/
theorem lasts_scriptType (firm : c.Firm) (founded : s.Founded c) {id : SymbolId}
    (owned : c.symbols.owns id) :
    Lasts c s (scriptType c id) fun found t => ∀ type, found = some type → t.ScriptAt id type := by
  intro found t run
  obtain ⟨grows, kept⟩ := (Session.steps_naming firm).scriptType id founded run
  obtain ⟨symbol, hs⟩ := SymbolTable.owns_iff.1 owned
  have own (u : Session) : u.symbol? c id = some symbol := (Session.symbol?_own u owned).trans hs
  have bare {u : Session} (h : u.Founded c) : u.arraySymbols.find? id = none :=
    Option.eq_none_iff_forall_ne_some.2 fun type hfind => h.arraySymbols hfind owned
  by_cases made : symbol.kind = .script ∧ symbol.isGeneratedArray = false
  · obtain ⟨kind, declared⟩ := made
    have there {u : Session} {type : TypeId}
        (hfind : u.named.find? (Session.qualifiedKey symbol) = some type) :
        scriptType c id u = .ok (some type, u) := by
      rw [scriptType_eq, own]
      dsimp only
      rw [if_neg (by simp [kind]), if_neg (by simp [declared]), hfind]
    obtain ⟨type, rfl, hfind⟩ : ∃ type, found = some type ∧
        t.named.find? (Session.qualifiedKey symbol) = some type := by
      cases hfind : s.named.find? (Session.qualifiedKey symbol) with
      | some type =>
        cases run.symm.trans (there hfind)
        exact ⟨type, rfl, hfind⟩
      | none =>
        rw [scriptType_eq, own] at run
        dsimp only at run
        rw [if_neg (by simp [kind]), if_neg (by simp [declared]), hfind] at run
        cases run
        have structs := Session.select_structs firm.symbols s hs
        exact ⟨_, rfl,
          by rw [Session.find?_withScript structs firm.apart id symbol hs kind, if_pos rfl]⟩
    refine ⟨grows, kept, ?_, fun u _ retains => ?_⟩
    · rintro _ ⟨⟩
      exact kept.scripts hs kind hfind
    · exact there (retains.named hs kind hfind)
  · have answer {u : Session} (h : u.Founded c) : scriptType c id u = .ok (none, u) := by
      rw [scriptType_eq, own]
      dsimp only
      by_cases kind : symbol.kind = .script
      · rw [if_neg (by simp [kind]), if_pos (by simpa [kind] using made), bare h]
      · rw [if_pos kind]
    rw [answer founded] at run
    cases run
    exact ⟨grows, kept, fun type h => (by cases h), fun u h _ => answer h⟩

/-- What a name is resolved to lasts. -/
theorem lasts_denotes (firm : c.Firm) (founded : s.Founded c) (name : String) :
    Lasts c s (resolveFullName c name) fun found t => ∀ type, found = some type →
      t.Denotes c name type := by
  unfold resolveFullName
  cases intrinsic : TypeTable.intrinsic? name with
  | some type =>
    refine .pure founded ?_
    rintro _ ⟨⟩
    exact .intrinsic intrinsic
  | none =>
    cases direct : c.scripts.find? name with
    | some script =>
      refine .imp (lasts_scriptType firm founded (firm.owns direct)) fun found t _ _ scriptAt => ?_
      exact fun type h => .script intrinsic direct (scriptAt type h)
    | none =>
      dsimp only
      split
      · exact .pure founded (by simp)
      rename_i inside
      split
      · rename_i script hscript
        refine .bind (lasts_scriptType firm founded (firm.owns hscript))
          fun found t _ kept placed => ?_
        split
        · rename_i type
          obtain ⟨info, hi, -, rfl⟩ := placed type rfl
          refine .bind (lasts_typeInfo kept _) fun info' u grows kept' hi' => ?_
          cases (grows.grown.types hi).symm.trans hi'
          split
          · rename_i table hf
            refine .pure kept' fun id listed => ?_
            exact .struct intrinsic direct (Bool.eq_false_iff.2 inside) hscript hi' hf listed
          · exact .pure kept' (by simp)
        · exact .pure kept (by simp)
      · exact .pure founded (by simp)

/-- What a name is resolved to lasts, and the name of a script is resolved to its type. -/
theorem lasts_resolveFullName (firm : c.Firm) (founded : s.Founded c) (name : String) :
    Lasts c s (resolveFullName c name) fun found t => ∀ id type, found = some type →
      TypeTable.intrinsic? name = none → c.scripts.find? name = some id → t.ScriptAt id type := by
  refine .imp (lasts_denotes firm founded name)
    fun found t _ _ denotes id type hfound foreign hid => ?_
  cases denotes type hfound with
  | intrinsic found => cases foreign.symm.trans found
  | script _ found scriptAt =>
    cases found.symm.trans hid
    exact scriptAt
  | struct _ absent => cases absent.symm.trans hid

/-! ## The types of names -/

/-- Two spellings of a full name that differ in case only, in the whole and in both of its parts.
The parts have to be looked at for themselves: a capital sigma at the end of the namespace is not at
the end of a word in the whole name. -/
structure SpelledAlike (name name' : String) : Prop where
  whole : Text.lowercase name = Text.lowercase name'
  container : Text.lowercase (QualifiedName.parse name).container =
    Text.lowercase (QualifiedName.parse name').container
  name : Text.lowercase (QualifiedName.parse name).name =
    Text.lowercase (QualifiedName.parse name').name

/-- A name is resolved in any case. -/
theorem resolveFullName_congr (bound : c.Bound) {name name' : String}
    (h : SpelledAlike name name') : resolveFullName c name = resolveFullName c name' := by
  unfold resolveFullName
  dsimp only
  rw [Codebase.intrinsic?_congr h.whole, bound.find?_congr h.whole, bound.find?_congr h.container,
    ← Text.isEmpty_lowercase, h.container, Text.isEmpty_lowercase, h.name]

/-- A name that has been resolved leads to the same type whatever is asked in between, in every
spelling. If it is that of a script, then the type is that of the script. -/
theorem resolveType_steadfast (bound : c.Bound) (apart : c.ScriptsApart) (arises : s.Arises c)
    {t : Session} {name : String} {type : TypeId}
    (run : resolveType c name [] s = .ok (some type, t)) :
    (∀ u name', t.Leads c u → SpelledAlike name' name →
      resolveType c name' [] u = .ok (some type, u)) ∧
    ∀ id, c.scripts.find? name = some id → TypeTable.intrinsic? name = none →
      t.ScriptAt id type := by
  have firm := bound.firm apart
  obtain ⟨-, kept, scriptAt, again⟩ :=
    lasts_resolveFullName firm (arises.founded firm) name run
  refine ⟨fun u name' leads alike => ?_, fun id hfind foreign => scriptAt id type rfl foreign hfind⟩
  obtain ⟨retains, kept'⟩ := leads.steady (Session.steps_naming firm) kept
  change resolveFullName c name' u = _
  rw [resolveFullName_congr bound alike]
  exact again kept' retains

/-- A script with a struct:

    ScriptName A
    Struct B
    EndStruct -/
def structForms : List Form :=
  [.identifier "A", .scriptHeader ⟨0⟩ none ∅, .identifier "B", .struct ⟨2⟩ [],
    .script ⟨1⟩ [] [⟨3⟩]]

theorem struct_keeps_type : ∃ (c : Codebase) (s t u : Session) (type : TypeId),
    c.tree = .ofForms structForms ∧ c.Bound ∧ c.ScriptsApart ∧ s.Arises c ∧
    resolveType c "a:b" [] s = .ok (some type, t) ∧
    (Question.arrayTypeFor "A").ask c t = .ok ((), u) ∧ SpelledAlike "A:B" "a:b" ∧
    resolveType c "A:B" [] u = .ok (some type, u) := by
  obtain ⟨p, run, fits⟩ := exists_ok_of_any (o := Program.ofTree (.ofForms structForms))
    (f := fun p => decide (p.tree = .ofForms structForms) && decide p.codebase.Unambiguous &&
      (Session.start p.codebase).toOption.any fun s =>
        (resolveType p.codebase "a:b" [] s).toOption.any fun (r : Option TypeId × Session) =>
          r.1.isSome && ((Question.arrayTypeFor "A").ask p.codebase r.2).toOption.any fun _ => true)
    (by decide +kernel)
  simp only [Bool.and_eq_true, decide_eq_true_eq] at fits
  obtain ⟨⟨tree, unambiguous⟩, fits⟩ := fits
  obtain ⟨s, started, fits⟩ := exists_ok_of_any fits
  obtain ⟨⟨found, t⟩, resolved, fits⟩ := exists_ok_of_any fits
  obtain ⟨isFound, fits⟩ := Bool.and_eq_true_iff.1 fits
  obtain ⟨type, rfl⟩ := Option.isSome_iff_exists.1 isFound
  obtain ⟨⟨_, u⟩, asked, -⟩ := exists_ok_of_any fits
  have apart := Codebase.Unambiguous.scriptsApart unambiguous
  have arises : s.Arises p.codebase := ⟨s, started, .refl⟩
  have alike : SpelledAlike "A:B" "a:b" := ⟨by decide, by decide, by decide⟩
  exact ⟨p.codebase, s, t, u, type, tree, .program run, apart, arises, resolved, asked, alike,
    (resolveType_steadfast (.program run) apart arises resolved).1 u "A:B" (.ask _ .refl asked)
      alike⟩

/-- A script with a struct, and a script with the qualified name of the struct:

    ScriptName A
    Struct B
    EndStruct

    ScriptName A:B -/
def rivalForms : List Form :=
  structForms ++ [.identifier "A:B", .scriptHeader ⟨5⟩ none ∅, .script ⟨6⟩ [] []]

/-- The type of a script gives way to that of a struct with the same qualified name. -/
theorem struct_displaces_script : ∃ (c : Codebase) (s t u v : Session) (type other : TypeId),
    c.tree = .ofForms rivalForms ∧ c.Bound ∧ s.Arises c ∧
    resolveType c "A:B" [] s = .ok (some type, t) ∧
    (Question.resolveType "A" []).ask c t = .ok ((), u) ∧
    resolveType c "A:B" [] u = .ok (some other, v) ∧ other ≠ type := by
  obtain ⟨p, run, fits⟩ := exists_ok_of_any (o := Program.ofTree (.ofForms rivalForms))
    (f := fun p => decide (p.tree = .ofForms rivalForms) &&
      (Session.start p.codebase).toOption.any fun s =>
        (resolveType p.codebase "A:B" [] s).toOption.any fun (r : Option TypeId × Session) =>
          ((Question.resolveType "A" []).ask p.codebase r.2).toOption.any
            fun (q : Unit × Session) => (resolveType p.codebase "A:B" [] q.2).toOption.any
              fun (r' : Option TypeId × Session) =>
                r.1.isSome && r'.1.isSome && decide (r'.1 ≠ r.1))
    (by decide +kernel)
  obtain ⟨tree, fits⟩ := Bool.and_eq_true_iff.1 fits
  obtain ⟨s, started, fits⟩ := exists_ok_of_any fits
  obtain ⟨⟨found, t⟩, resolved, fits⟩ := exists_ok_of_any fits
  obtain ⟨⟨_, u⟩, asked, fits⟩ := exists_ok_of_any fits
  obtain ⟨⟨found', v⟩, resolved', fits⟩ := exists_ok_of_any fits
  simp only [Bool.and_eq_true, decide_eq_true_eq] at fits
  obtain ⟨⟨isFound, isFound'⟩, unlike⟩ := fits
  obtain ⟨type, rfl⟩ := Option.isSome_iff_exists.1 isFound
  obtain ⟨other, rfl⟩ := Option.isSome_iff_exists.1 isFound'
  exact ⟨p.codebase, s, t, u, v, type, other, of_decide_eq_true tree, .program run,
    ⟨s, started, .refl⟩, resolved, asked, resolved', fun same => unlike (congrArg some same)⟩

end Query

end PapyrusAnalysis
