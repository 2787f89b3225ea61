import Mathlib.Data.List.Dedup
import Mathlib.Data.List.Nodup
import Mathlib.Data.List.Perm.Subperm
import PapyrusAnalysis.Proofs.Session.Growth

/-!
# What is true of every session

The types of scripts and structs belong to symbols of the codebase, and what the tables of a session
lead to are types that it has. A script has at most one type for each spelling of its qualified
name, so a session has no more types of scripts than the codebase has symbols. In the same way the
types that arrays can have elements of are limited, and with them the numbers for symbols that a
session can still need. Making an array uses up as many numbers as are needed less from then on.

## Main definitions

* `Session.Sound`: what is true of every session.
* `Session.IsElement`: the types that arrays can have elements of.
* `Session.demand`: the numbers for symbols that a session can come to need.
* `Codebase.Crowded`, `Session.Crowded`: the numbers may not suffice for the symbols of arrays.
-/

namespace PapyrusAnalysis

namespace Codebase

/-- The names of the types that arrays can have elements of, in lower case. -/
def elementKeys (c : Codebase) : List String :=
  Intrinsic.all.map (fun kind => Text.lowercase kind.name) ++
    c.symbols.symbols.toList.map fun symbol => Text.lowercase symbol.qualifiedName

theorem length_elementKeys (c : Codebase) : c.elementKeys.length = 7 + c.symbols.size := by
  simp only [elementKeys, Intrinsic.all, SymbolTable.size, List.length_append, List.length_map,
    List.length_cons, List.length_nil, Array.length_toList]

/-- The numbers for symbols may not suffice for the symbols of the codebase, those of the intrinsic
types and those of an array for each type. -/
def Crowded (c : Codebase) : Prop :=
  SymbolId.limit < c.symbols.base + 28 * (c.symbols.size + 7)

end Codebase

namespace TypeInfo

variable {c : Codebase} {s s' : Session} {info : TypeInfo}

/-- A type belongs to a symbol of the codebase of some kind and has its names. -/
def Stands (c : Codebase) (kind : SymbolKind) (info : TypeInfo) : Prop :=
  ∃ symbol, c.symbols.get? info.symbol = some symbol ∧ symbol.kind = kind ∧
    info.name = symbol.name ∧ info.qualifiedName = symbol.qualifiedName

/-- What is true of a type of a session. -/
structure Fits (c : Codebase) (s : Session) (info : TypeInfo) : Prop where
  intrinsic : ∀ {kind}, info.form = .intrinsic kind → info.qualifiedName = kind.name
  script : info.isScript → info.Stands c .script
  struct : info.isStruct → info.Stands c .struct
  foreign : info.isIntrinsic ∨ info.isArray → ¬ c.symbols.owns info.symbol
  structs : ∀ {table key id}, info.form = .script table → table.find? key = some id →
    ∃ other, s.types.get? id = some other ∧ other.isStruct

theorem Fits.extends (h : Fits c s info) (e : s.Extends s') : Fits c s' info where
  intrinsic := h.intrinsic
  script := h.script
  struct := h.struct
  foreign := h.foreign
  structs hf hk := by
    obtain ⟨other, ho, hs⟩ := h.structs hf hk
    exact ⟨other, e.types ho, hs⟩

/-- A type is that of a script or of a struct. -/
def isDeclared (info : TypeInfo) : Bool := info.isScript || info.isStruct

end TypeInfo

namespace Session

variable {c : Codebase} {s s' : Session}

/-- What is true of every session. -/
structure Sound (c : Codebase) (s : Session) : Prop where
  base : s.synthetic.base = c.symbols.base + c.symbols.size
  /-- Besides the symbols of the intrinsic types there are those of arrays. -/
  size : s.synthetic.size = 7 + 27 * s.arrays.keys.length
  room : s.nextSymbol ≤ SymbolId.limit
  numbered : s.synthetic.Numbered
  /-- The session's own symbols have no declarations, and the scripts among them are arrays. -/
  synthetic : ∀ {id symbol}, s.synthetic.get? id = some symbol → symbol.declaration = none ∧
    symbol.kind ≠ .struct ∧ (symbol.kind = .script → symbol.isGeneratedArray)
  intrinsic : ∀ kind : Intrinsic, ∃ info, s.types.get? kind.typeId = some info ∧
    info.form = .intrinsic kind ∧ info.qualifiedName = kind.name
  infos : ∀ {id info}, s.types.get? id = some info → info.Fits c s
  named : ∀ {key id}, s.named.find? key = some id → ∃ info, s.types.get? id = some info ∧
    info.isDeclared ∧ Text.lowercase info.qualifiedName = key
  entered : ∀ {id info}, s.types.get? id = some info → info.isScript →
    s.named.contains (Text.lowercase info.qualifiedName)
  distinct : ∀ {a b info info'}, s.types.get? a = some info → s.types.get? b = some info' →
    info.isScript → info'.isScript →
    Text.lowercase info.qualifiedName = Text.lowercase info'.qualifiedName → a = b
  arrays : ∀ {key id}, s.arrays.find? key = some id → ∃ info, s.types.get? id = some info
  arrayKeys : s.arrays.keys.Nodup
  arraySymbols : ∀ {symbol id}, s.arraySymbols.find? symbol = some id →
    (∃ info, s.types.get? id = some info) ∧ ¬ c.symbols.owns symbol

theorem not_owns_of_base (h : s.synthetic.base = c.symbols.base + c.symbols.size) {id : SymbolId}
    (beyond : s.synthetic.base ≤ id.index) : ¬ c.symbols.owns id := by
  simp only [SymbolTable.owns, Bool.and_eq_true, decide_eq_true_eq]
  omega

/-- The nodes that are pending have no part in soundness. -/
theorem Sound.withPending (h : Sound c s) (pending : List NodeId) :
    Sound c { s with pending := pending } where
  base := h.base
  size := h.size
  room := h.room
  numbered := h.numbered
  synthetic := h.synthetic
  intrinsic := h.intrinsic
  infos hi := (h.infos hi).extends ⟨fun hi => hi, fun hs => hs⟩
  named := h.named
  entered := h.entered
  distinct := h.distinct
  arrays := h.arrays
  arrayKeys := h.arrayKeys
  arraySymbols := h.arraySymbols

theorem mem_intrinsicInfos {kinds : List Intrinsic} {next : Nat} {make : TypeId → TypeInfo}
    (h : make ∈ intrinsicInfos next kinds) (id : TypeId) :
    (∃ kind, (make id).form = .intrinsic kind ∧ (make id).qualifiedName = kind.name) ∧
      next ≤ (make id).symbol.index := by
  induction kinds generalizing next with
  | nil => cases h
  | cons kind kinds ih =>
    rcases List.mem_cons.1 h with rfl | h
    · exact ⟨⟨kind, rfl, rfl⟩, Nat.le_refl _⟩
    · exact ⟨(ih h).1, Nat.le_of_succ_le (ih h).2⟩

theorem consecutive_intrinsicSymbols (next : Nat) (kinds : List Intrinsic) :
    SymbolTable.Consecutive next (intrinsicSymbols next kinds) := by
  induction kinds generalizing next with
  | nil => trivial
  | cons kind kinds ih => exact ⟨rfl, ih (next + 1)⟩

theorem getElem?_intrinsicSymbols (next : Nat) (kinds : List Intrinsic) (i : Nat) :
    (intrinsicSymbols next kinds)[i]? = kinds[i]?.map (intrinsicSymbol · ⟨next + i⟩) := by
  induction kinds generalizing next i with
  | nil => rfl
  | cons kind kinds ih =>
    cases i with
    | zero => rfl
    | succ i => exact (ih (next + 1) i).trans (by rw [Nat.add_assoc, Nat.add_comm 1]; rfl)

/-- The types of a new session are the intrinsic types. -/
theorem types_initial (c : Codebase) (kind : Intrinsic) :
    (initial c).types.get? kind.typeId = some ⟨kind.typeId, kind.name, kind.name,
      ⟨c.symbols.base + c.symbols.size + kind.typeId.index⟩, .intrinsic kind⟩ := by
  have found := TypeTable.get?_extend ⟨#[]⟩
    (intrinsicInfos (c.symbols.base + c.symbols.size) Intrinsic.all) kind.typeId.index
  rw [show (⟨TypeTable.size ⟨#[]⟩ + kind.typeId.index⟩ : TypeId) = kind.typeId by
    cases kind <;> rfl] at found
  refine found.trans ?_
  cases kind <;> rfl

theorem infos_initial {c : Codebase} {id : TypeId} {info : TypeInfo}
    (h : (initial c).types.get? id = some info) :
    (∃ kind, info.form = .intrinsic kind ∧ info.qualifiedName = kind.name) ∧
      c.symbols.base + c.symbols.size ≤ info.symbol.index := by
  have made : (TypeTable.extend ⟨#[]⟩
    (intrinsicInfos (c.symbols.base + c.symbols.size) Intrinsic.all)).get? id = some info := h
  rcases TypeTable.get?_extend_cases made with old | ⟨i, make, -, new, rfl⟩
  · simp [TypeTable.get?] at old
  · exact mem_intrinsicInfos (List.mem_of_getElem? new) id

theorem sound_initial (c : Codebase) (room : c.symbols.base + c.symbols.size + 7 ≤ SymbolId.limit) :
    Sound c (initial c) := by
  have noScript : ∀ {id info}, (initial c).types.get? id = some info → ¬ info.isScript := by
    intro id info h script
    obtain ⟨⟨kind, hf, -⟩, -⟩ := infos_initial h
    simp [TypeInfo.isScript, hf] at script
  have empty : (SymbolTable.startingAt (c.symbols.base + c.symbols.size)).Numbered := by
    intro id symbol h
    simp [SymbolTable.get?, SymbolTable.startingAt] at h
  refine ⟨rfl, rfl, room, empty.extend (consecutive_intrinsicSymbols _ _), ?_, ?_, ?_, ?_, ?_, ?_,
    ?_, ?_, ?_⟩
  · intro id symbol h
    rcases SymbolTable.get?_extend_cases h with h | ⟨i, -, h⟩
    · simp [SymbolTable.get?, SymbolTable.startingAt] at h
    · rw [getElem?_intrinsicSymbols] at h
      obtain ⟨kind, -, rfl⟩ := Option.map_eq_some_iff.1 h
      exact ⟨rfl, (by intro h; cases h), (by intro h; cases h)⟩
  · intro kind
    exact ⟨_, types_initial c kind, rfl, rfl⟩
  · intro id info h
    obtain ⟨⟨kind, hf, hq⟩, beyond⟩ := infos_initial h
    refine ⟨?_, ?_, ?_, fun _ => not_owns_of_base (s := initial c) rfl beyond, ?_⟩
    · intro kind' hf'
      cases hf.symm.trans hf'
      exact hq
    · exact fun script => absurd script (noScript h)
    · intro struct
      simp [TypeInfo.isStruct, hf] at struct
    · intro table key id hf'
      cases hf.symm.trans hf'
  · intro key id h
    cases h
  · exact fun h script => absurd script (noScript h)
  · exact fun h _ script => absurd script (noScript h)
  · intro key id h
    cases h
  · exact .nil
  · intro symbol id h
    cases h

/-! ## One more script -/

theorem scriptBlock_cases {script : Nat} {id : SymbolId} {symbol : Symbol}
    {structs : List (SymbolId × Symbol)} {i : Nat} {make : TypeId → TypeInfo}
    (h : (scriptBlock script id symbol structs)[i]? = some make) :
    (i = 0 ∧ make = (⟨·, symbol.name, symbol.qualifiedName, id,
      .script (enterAll nameKey (script + 1) structs ∅)⟩)) ∨
    ∃ j entry, i = j + 1 ∧ structs[j]? = some entry ∧ make = structInfo ⟨script⟩ entry := by
  cases i with
  | zero => exact .inl ⟨rfl, by simpa [scriptBlock] using h.symm⟩
  | succ j =>
    simp only [scriptBlock, List.getElem?_cons_succ, List.getElem?_map, Option.map_eq_some_iff] at h
    obtain ⟨entry, he, rfl⟩ := h
    exact .inr ⟨j, entry, rfl, he, rfl⟩

/-- The types in the block of a script. -/
theorem get?_withScript_struct (s : Session) (id : SymbolId) (symbol : Symbol)
    {structs : List (SymbolId × Symbol)} {i : Nat} {entry : SymbolId × Symbol}
    (h : structs[i]? = some entry) :
    (s.withScript id symbol structs).types.get? ⟨s.types.size + 1 + i⟩ =
      some (structInfo ⟨s.types.size⟩ entry ⟨s.types.size + 1 + i⟩) := by
  rw [show s.types.size + 1 + i = s.types.size + (i + 1) by omega]
  exact (TypeTable.get?_extend _ _ _).trans (by simp [scriptBlock, h])

theorem get?_withScript_script (s : Session) (id : SymbolId) (symbol : Symbol)
    (structs : List (SymbolId × Symbol)) :
    (s.withScript id symbol structs).types.get? ⟨s.types.size⟩ =
      some ⟨⟨s.types.size⟩, symbol.name, symbol.qualifiedName, id,
        .script (enterAll nameKey (s.types.size + 1) structs ∅)⟩ :=
  (TypeTable.get?_extend _ _ 0).trans rfl

/-- The types in the block of a script belong to symbols of the codebase. -/
theorem fits_withScript (fits : ∀ {id info}, s.types.get? id = some info → info.Fits c s)
    {id : SymbolId} {symbol : Symbol} {structs : List (SymbolId × Symbol)}
    (hs : c.symbols.get? id = some symbol) (hkind : symbol.kind = .script)
    (hstructs : ∀ entry ∈ structs, c.symbols.get? entry.1 = some entry.2 ∧ entry.2.kind = .struct)
    {type : TypeId} {info : TypeInfo}
    (hi : (s.withScript id symbol structs).types.get? type = some info) :
    info.Fits c (s.withScript id symbol structs) := by
  rcases TypeTable.get?_extend_cases hi with old | ⟨i, _, -, new, rfl⟩
  · exact (fits old).extends (extends_withScript s id symbol structs)
  · rcases scriptBlock_cases new with ⟨-, rfl⟩ | ⟨j, entry, -, hj, rfl⟩
    · refine ⟨?_, fun _ => ⟨symbol, hs, hkind, rfl, rfl⟩, ?_, ?_, ?_⟩
      · exact fun h => by cases h
      · exact fun h => by cases h
      · exact fun h => by rcases h with h | h <;> cases h
      rintro _ key type ⟨⟩ hfind
      rcases find?_enterAll hfind with none | ⟨i, entry, hentry, -, rfl⟩
      · cases none
      · exact ⟨_, get?_withScript_struct s id symbol hentry, rfl⟩
    · obtain ⟨known, kind⟩ := hstructs entry (List.mem_of_getElem? hj)
      refine ⟨?_, ?_, fun _ => ⟨entry.2, known, kind, rfl, rfl⟩, ?_, ?_⟩
      · exact fun h => by cases h
      · exact fun h => by cases h
      · exact fun h => by rcases h with h | h <;> cases h
      · exact fun h => by cases h

theorem Sound.withScript (h : Sound c s) {id : SymbolId} {symbol : Symbol}
    {structs : List (SymbolId × Symbol)} (hs : c.symbols.get? id = some symbol)
    (hkind : symbol.kind = .script) (fresh : s.named.find? (qualifiedKey symbol) = none)
    (hstructs : ∀ entry ∈ structs, c.symbols.get? entry.1 = some entry.2 ∧ entry.2.kind = .struct) :
    Sound c (s.withScript id symbol structs) := by
  have e := extends_withScript s id symbol structs
  have contains : ∀ {key}, s.named.contains key ∨ qualifiedKey symbol = key →
      (s.withScript id symbol structs).named.contains key := by
    intro key hkey
    refine contains_enterAll ?_
    rw [Registry.contains, Registry.find?_insert]
    split
    · rfl
    · exact hkey.resolve_right (by assumption)
  -- A type of a script that was there before has another name, or the new one would not be made.
  have unlike : ∀ {id info}, s.types.get? id = some info → info.isScript →
      Text.lowercase info.qualifiedName ≠ qualifiedKey symbol := by
    intro id info hi script same
    obtain ⟨other, ho⟩ := Registry.contains_iff.1 (h.entered hi script)
    rw [same, fresh] at ho
    cases ho
  refine ⟨h.base, h.size, h.room, h.numbered, h.synthetic, ?_, ?_, ?_, ?_, ?_, ?_, h.arrayKeys, ?_⟩
  · intro kind
    obtain ⟨info, hi, rest⟩ := h.intrinsic kind
    exact ⟨info, e.types hi, rest⟩
  · exact fun hi => fits_withScript h.infos hs hkind hstructs hi
  · intro key type hfind
    rcases find?_enterAll hfind with old | ⟨i, entry, hentry, rfl, rfl⟩
    · rw [Registry.find?_insert] at old
      split at old
      · cases old
        exact ⟨_, get?_withScript_script s id symbol structs, rfl, by assumption⟩
      · obtain ⟨info, hi, rest⟩ := h.named old
        exact ⟨info, e.types hi, rest⟩
    · exact ⟨_, get?_withScript_struct s id symbol hentry, rfl, rfl⟩
  · intro other info hi script
    rcases TypeTable.get?_extend_cases hi with old | ⟨i, _, -, new, rfl⟩
    · exact contains (.inl (h.entered old script))
    · rcases scriptBlock_cases new with ⟨-, rfl⟩ | ⟨j, entry, -, hj, rfl⟩
      · exact contains (.inr rfl)
      · cases script
  · intro a b info info' ha hb script script' same
    rcases TypeTable.get?_extend_cases ha with old | ⟨i, _, rfl, new, rfl⟩ <;>
      rcases TypeTable.get?_extend_cases hb with old' | ⟨i', _, rfl, new', rfl⟩
    · exact h.distinct old old' script script' same
    · rcases scriptBlock_cases new' with ⟨-, rfl⟩ | ⟨j, entry, -, hj, rfl⟩
      · exact absurd same (unlike old script)
      · cases script'
    · rcases scriptBlock_cases new with ⟨-, rfl⟩ | ⟨j, entry, -, hj, rfl⟩
      · exact absurd same.symm (unlike old' script')
      · cases script
    · rcases scriptBlock_cases new with ⟨rfl, -⟩ | ⟨j, entry, -, hj, rfl⟩
      · rcases scriptBlock_cases new' with ⟨rfl, -⟩ | ⟨j, entry, -, hj, rfl⟩
        · rfl
        · cases script'
      · cases script
  · intro key type hfind
    obtain ⟨info, hi⟩ := h.arrays hfind
    exact ⟨info, e.types hi⟩
  · intro other type hfind
    obtain ⟨⟨info, hi⟩, foreign⟩ := h.arraySymbols hfind
    exact ⟨⟨info, e.types hi⟩, foreign⟩

/-! ## One more array -/

theorem get?_withArray (s : Session) (element : String) :
    (s.withArray element).types.get? ⟨s.types.size⟩ =
      some (arrayInfo element s.nextSymbol ⟨s.types.size⟩) :=
  (TypeTable.get?_extend _ _ 0).trans rfl

/-- What is found after an array type was made was there before, or is that type. -/
theorem get?_withArray_cases {element : String} {type : TypeId} {info : TypeInfo}
    (hi : (s.withArray element).types.get? type = some info) :
    s.types.get? type = some info ∨
      type = ⟨s.types.size⟩ ∧ info = arrayInfo element s.nextSymbol type := by
  rcases TypeTable.get?_extend_cases hi with old | ⟨i, make, rfl, new, rfl⟩
  · exact .inl old
  · cases i with
    | zero => exact .inr ⟨rfl, congrFun (Option.some.inj new).symm _⟩
    | succ i => cases new

theorem keys_withArray {element : String}
    (fresh : s.arrays.find? (Text.lowercase element) = none) :
    (s.withArray element).arrays.keys = s.arrays.keys ++ [Text.lowercase element] := by
  have absent : s.arrays.contains (Text.lowercase element) = false := by
    simp [Registry.contains, fresh]
  exact (Registry.keys_insert _ _ _).trans (by simp [absent])

theorem not_owns_nextSymbol (h : s.synthetic.base = c.symbols.base + c.symbols.size) :
    ¬ c.symbols.owns ⟨s.nextSymbol⟩ :=
  not_owns_of_base h (Nat.le_add_right s.synthetic.base s.synthetic.size)

/-- An array type belongs to a symbol of the session. -/
theorem fits_withArray (fits : ∀ {id info}, s.types.get? id = some info → info.Fits c s)
    (base : s.synthetic.base = c.symbols.base + c.symbols.size) {element : String} {type : TypeId}
    {info : TypeInfo} (hi : (s.withArray element).types.get? type = some info) :
    info.Fits c (s.withArray element) := by
  rcases get?_withArray_cases hi with old | ⟨-, rfl⟩
  · exact (fits old).extends (extends_withArray s element)
  · refine ⟨?_, ?_, ?_, fun _ => not_owns_nextSymbol base, ?_⟩ <;> exact fun h => by cases h

theorem Sound.withArray (h : Sound c s) {element : String}
    (room : s.nextSymbol + 27 ≤ SymbolId.limit)
    (fresh : s.arrays.find? (Text.lowercase element) = none) : Sound c (s.withArray element) := by
  have e := extends_withArray s element
  have synthetic : (s.withArray element).synthetic =
      s.synthetic.extend (ArrayMembers.block element s.nextSymbol) := rfl
  have keys := keys_withArray fresh
  refine ⟨?_, ?_, ?_, ?_, ?_, ?_, ?_, ?_, ?_, ?_, ?_, ?_, ?_⟩
  · rw [synthetic, SymbolTable.base_extend, h.base]
  · rw [synthetic, SymbolTable.size_extend, ArrayMembers.length_block, keys, h.size,
      List.length_append, List.length_singleton]
    omega
  · rw [nextSymbol, synthetic, SymbolTable.base_extend, SymbolTable.size_extend,
      ArrayMembers.length_block, ← Nat.add_assoc]
    exact room
  · exact h.numbered.extend (ArrayMembers.consecutive_block element s.nextSymbol)
  · intro id symbol hs
    rw [synthetic] at hs
    rcases SymbolTable.get?_extend_cases hs with old | ⟨i, -, new⟩
    · exact h.synthetic old
    · exact ArrayMembers.mem_block (List.mem_of_getElem? new)
  · intro kind
    obtain ⟨info, hi, rest⟩ := h.intrinsic kind
    exact ⟨info, e.types hi, rest⟩
  · exact fun hi => fits_withArray h.infos h.base hi
  · intro key id hfind
    obtain ⟨info, hi, rest⟩ := h.named hfind
    exact ⟨info, e.types hi, rest⟩
  · intro id info hi script
    rcases get?_withArray_cases hi with old | ⟨-, rfl⟩
    · exact h.entered old script
    · cases script
  · intro a b info info' ha hb script script' same
    rcases get?_withArray_cases ha with old | ⟨-, rfl⟩
    · rcases get?_withArray_cases hb with old' | ⟨-, rfl⟩
      · exact h.distinct old old' script script' same
      · cases script'
    · cases script
  · intro key id hfind
    change (s.arrays.insert _ _).find? key = some id at hfind
    rw [Registry.find?_insert] at hfind
    split at hfind
    · cases hfind
      exact ⟨_, get?_withArray s element⟩
    · obtain ⟨info, hi⟩ := h.arrays hfind
      exact ⟨info, e.types hi⟩
  · rw [keys]
    refine List.nodup_append.2 ⟨h.arrayKeys, List.nodup_singleton _, ?_⟩
    rintro key hkey _ hother rfl
    rw [List.mem_singleton.1 hother] at hkey
    exact Registry.notMem_keys fresh hkey
  · intro symbol id hfind
    change (s.arraySymbols.insert _ _).find? symbol = some id at hfind
    rw [Registry.find?_insert] at hfind
    split at hfind
    · subst symbol
      cases hfind
      exact ⟨⟨_, get?_withArray s element⟩, not_owns_nextSymbol h.base⟩
    · obtain ⟨⟨info, hi⟩, foreign⟩ := h.arraySymbols hfind
      exact ⟨⟨info, e.types hi⟩, foreign⟩

/-! ## Questions about symbols -/

theorem mem_select {ids : List SymbolId} {wanted : Symbol → Bool} {entry : SymbolId × Symbol} :
    entry ∈ s.select c ids wanted ↔
      entry.1 ∈ ids ∧ s.symbol? c entry.1 = some entry.2 ∧ wanted entry.2 := by
  obtain ⟨id, symbol⟩ := entry
  simp only [select, List.mem_filterMap]
  constructor
  · rintro ⟨other, ho, hs⟩
    split at hs
    · split at hs
      · cases hs
        exact ⟨ho, by assumption, by assumption⟩
      · cases hs
    · cases hs
  · rintro ⟨hid, hs, hw⟩
    exact ⟨id, hid, by simp [hs, hw]⟩

/-- One session follows another in the course of a question. -/
structure Follows (s s' : Session) : Prop where
  grown : s.Extends s'
  pending : s'.pending = s.pending

theorem Follows.refl (s : Session) : s.Follows s := ⟨.refl s, rfl⟩

theorem Follows.trans {s'' : Session} (h : s.Follows s') (h' : s'.Follows s'') : s.Follows s'' :=
  ⟨h.grown.trans h'.grown, h'.pending.trans h.pending⟩

theorem follows_withScript (s : Session) (id : SymbolId) (symbol : Symbol)
    (structs : List (SymbolId × Symbol)) : s.Follows (s.withScript id symbol structs) :=
  ⟨extends_withScript s id symbol structs, rfl⟩

theorem follows_withArray (s : Session) (element : String) : s.Follows (s.withArray element) :=
  ⟨extends_withArray s element, rfl⟩

theorem selectNumbered_eq {ids : List SymbolId} {wanted : Symbol → Bool}
    (numbered : ∀ id ∈ ids, ∀ symbol, s.symbol? c id = some symbol → symbol.id = id) :
    s.selectNumbered c ids wanted = s.select c ids wanted := by
  refine (List.map_congr_left fun entry he => ?_).trans (List.map_id _)
  obtain ⟨among, known, -⟩ := mem_select.1 he
  exact Prod.ext (numbered entry.1 among entry.2 known) rfl

/-- The members of a symbol of the codebase carry their own numbers. -/
theorem selectNumbered_members (hc : Binding.Sound c.tree c.symbols) (s : Session) {id : SymbolId}
    {symbol : Symbol} (hs : c.symbols.get? id = some symbol) (wanted : Symbol → Bool) :
    s.selectNumbered c symbol.members wanted = s.select c symbol.members wanted := by
  refine selectNumbered_eq fun member hm other known => ?_
  rw [symbol?_own s ((hc.fits hs).owned member (by simp [hm]))] at known
  exact hc.numbered known

/-- The structs of a script are symbols of the codebase. -/
theorem select_structs (hc : Binding.Sound c.tree c.symbols) (s : Session) {id : SymbolId}
    {symbol : Symbol} (hs : c.symbols.get? id = some symbol) :
    ∀ entry ∈ s.selectNumbered c symbol.members (·.kind = .struct),
      c.symbols.get? entry.1 = some entry.2 ∧ entry.2.kind = .struct := by
  intro entry hentry
  rw [selectNumbered_members hc s hs] at hentry
  obtain ⟨member, known, kind⟩ := mem_select.1 hentry
  have owned := (hc.fits hs).owned entry.1 (by simp [member])
  rw [symbol?_own s owned] at known
  exact ⟨known, by simpa using kind⟩

/-- The type that a script symbol leads to. Only that of a symbol of the codebase is looked into:
it belongs to a script or struct with the qualified name of the symbol. -/
theorem Sound.scriptType (hc : c.Sound) (h : Sound c s) (id : SymbolId) :
    ∃ answer s', Query.scriptType c id s = .ok (answer, s') ∧ s.Follows s' ∧ Sound c s' ∧
      (∀ type, answer = some type → ∃ info, s'.types.get? type = some info) ∧
      ∀ symbol type, c.symbols.get? id = some symbol → answer = some type →
        ∃ info, s'.types.get? type = some info ∧ info.isDeclared ∧
          Text.lowercase info.qualifiedName = qualifiedKey symbol := by
  rw [Query.scriptType_eq]
  cases hs : s.symbol? c id with
  | none => exact ⟨none, s, rfl, .refl s, h, fun _ ht => (by cases ht),
      fun _ _ _ ht => (by cases ht)⟩
  | some symbol =>
    dsimp only
    by_cases other : symbol.kind ≠ .script
    · rw [if_pos other]
      exact ⟨none, s, rfl, .refl s, h, fun _ ht => (by cases ht),
      fun _ _ _ ht => (by cases ht)⟩
    have kind : symbol.kind = .script := not_not.1 other
    rw [if_neg other]
    have own : ∀ symbol', c.symbols.get? id = some symbol' → symbol' = symbol := by
      intro symbol' hs'
      rw [symbol?_own s (SymbolTable.owns_of_get? hs'), hs'] at hs
      exact Option.some.inj hs
    split
    · refine ⟨_, s, rfl, .refl s, h, fun type ht => (h.arraySymbols ht).1, ?_⟩
      intro symbol' type hs' ht
      exact absurd (SymbolTable.owns_of_get? hs') (h.arraySymbols ht).2
    · rename_i declared
      have owned : c.symbols.get? id = some symbol := by
        by_cases owns : c.symbols.owns id
        · rwa [symbol?_own s owns] at hs
        · rw [symbol?_synthetic s owns] at hs
          exact absurd ((h.synthetic hs).2.2 kind) declared
      split
      · rename_i type hfind
        obtain ⟨info, hi, isDeclared, hkey⟩ := h.named hfind
        refine ⟨_, s, rfl, .refl s, h, ?_, ?_⟩
        · rintro _ ⟨⟩
          exact ⟨info, hi⟩
        · rintro symbol' _ hs' ⟨⟩
          rw [own symbol' hs']
          exact ⟨info, hi, isDeclared, hkey⟩
      · rename_i fresh
        have made := get?_withScript_script s id symbol
          (s.selectNumbered c symbol.members (·.kind = .struct))
        refine ⟨_, _, rfl, follows_withScript s id symbol _,
          h.withScript owned kind fresh (select_structs hc.symbols s owned), ?_, ?_⟩
        · rintro _ ⟨⟩
          exact ⟨_, made⟩
        · rintro symbol' _ hs' ⟨⟩
          rw [own symbol' hs']
          exact ⟨_, made, rfl, rfl⟩

/-! ## The numbers that are needed -/

/-- The names of the types that have no array yet. -/
def unmade (c : Codebase) (s : Session) : List String :=
  c.elementKeys.dedup.filter fun key => !s.arrays.contains key

/-- The numbers for symbols that are needed once there is an array of every type. -/
def demand (c : Codebase) (s : Session) : Nat := s.nextSymbol + 27 * (s.unmade c).length

/-- The numbers for symbols may not suffice for an array of every type. -/
def Crowded (c : Codebase) (s : Session) : Prop := SymbolId.limit < s.demand c

theorem mem_unmade {key : String} :
    key ∈ s.unmade c ↔ key ∈ c.elementKeys ∧ s.arrays.find? key = none := by
  simp [unmade, Registry.contains]

theorem nodup_unmade (c : Codebase) (s : Session) : (s.unmade c).Nodup :=
  (List.nodup_dedup _).filter _

/-- A session whose arrays all have elements of types of the codebase is crowded only if the
codebase is. -/
theorem Sound.crowded_codebase (h : Sound c s) (confined : s.arrays.keys ⊆ c.elementKeys)
    (crowded : s.Crowded c) : c.Crowded := by
  have apart : (s.arrays.keys ++ s.unmade c).Nodup := by
    refine List.nodup_append.2 ⟨h.arrayKeys, nodup_unmade c s, ?_⟩
    rintro key made _ unmade rfl
    exact Registry.notMem_keys (mem_unmade.1 unmade).2 made
  have inside : s.arrays.keys ++ s.unmade c ⊆ c.elementKeys :=
    List.append_subset.2 ⟨confined, fun key hkey => (mem_unmade.1 hkey).1⟩
  have few := (List.Nodup.subperm apart inside).length_le
  rw [List.length_append, c.length_elementKeys] at few
  have base := h.base
  have size := h.size
  unfold Crowded demand nextSymbol at crowded
  unfold Codebase.Crowded
  omega

/-- Without room for an array that can be asked for, the session is crowded. -/
theorem crowded_of_full {key : String} (known : key ∈ c.elementKeys)
    (fresh : s.arrays.find? key = none) (full : ¬ s.nextSymbol + 27 ≤ SymbolId.limit) :
    s.Crowded c := by
  have some : 0 < (s.unmade c).length := List.length_pos_of_mem (mem_unmade.2 ⟨known, fresh⟩)
  unfold Crowded demand
  omega

/-- Making an array does not change what is needed in the end. -/
theorem demand_withArray {element : String} (known : Text.lowercase element ∈ c.elementKeys)
    (fresh : s.arrays.find? (Text.lowercase element) = none) :
    (s.withArray element).demand c = s.demand c := by
  have next : (s.withArray element).nextSymbol = s.nextSymbol + 27 := by
    have synthetic : (s.withArray element).synthetic =
        s.synthetic.extend (ArrayMembers.block element s.nextSymbol) := rfl
    rw [nextSymbol, synthetic, SymbolTable.base_extend, SymbolTable.size_extend,
      ArrayMembers.length_block, ← Nat.add_assoc, ← nextSymbol]
  have left : (s.withArray element).unmade c = (s.unmade c).erase (Text.lowercase element) := by
    rw [(nodup_unmade c s).erase_eq_filter, unmade, unmade, List.filter_filter]
    refine List.filter_congr fun key _ => ?_
    change (!(s.arrays.insert _ _).contains key) = _
    rw [Registry.contains, Registry.find?_insert]
    by_cases same : Text.lowercase element = key
    · simp [same]
    · simp [same, Ne.symm same, Registry.contains]
  have listed : Text.lowercase element ∈ s.unmade c := mem_unmade.2 ⟨known, fresh⟩
  have some : 0 < (s.unmade c).length := List.length_pos_of_mem listed
  rw [demand, demand, next, left, List.length_erase_of_mem listed]
  omega

theorem demand_scriptType {id : SymbolId} {answer : Option TypeId}
    (run : Query.scriptType c id s = .ok (answer, s')) : s'.demand c = s.demand c := by
  rw [Query.scriptType_eq] at run
  repeat' split at run
  all_goals
    cases run
    rfl

/-- An array is found or made, unless there is no room for its symbols. -/
theorem Sound.arrayOf (h : Sound c s) (element : String) :
    (∃ type info s', Query.arrayOf element s = .ok (some type, s') ∧ s.Follows s' ∧ Sound c s' ∧
      s'.types.get? type = some info ∧
      (Text.lowercase element ∈ c.elementKeys → s'.demand c = s.demand c)) ∨
    Query.arrayOf element s = .error .symbolsExhausted ∧
      (Text.lowercase element ∈ c.elementKeys → s.Crowded c) := by
  rw [Query.arrayOf_eq element h.room]
  split
  · rename_i type hfind
    obtain ⟨info, hi⟩ := h.arrays hfind
    exact .inl ⟨type, info, s, rfl, .refl s, h, hi, fun _ => rfl⟩
  · rename_i fresh
    split
    · rename_i room
      exact .inl ⟨_, _, _, rfl, follows_withArray s element, h.withArray room fresh,
        get?_withArray s element, fun known => demand_withArray known fresh⟩
    · rename_i full
      exact .inr ⟨rfl, fun known => crowded_of_full known fresh full⟩

/-! ## Types of scripts -/

/-- Types with different symbols are no more than the numbers that the symbols have. -/
theorem length_types_le (s : Session) {types : List TypeId} (first : Nat) {count : Nat}
    (nodup : types.Nodup)
    (within : ∀ type ∈ types, ∃ info, s.types.get? type = some info ∧
      first ≤ info.symbol.index ∧ info.symbol.index < first + count)
    (distinct : ∀ a ∈ types, ∀ b ∈ types, ∀ info info', s.types.get? a = some info →
      s.types.get? b = some info' → info.symbol = info'.symbol → a = b) :
    types.length ≤ count := by
  let number (type : TypeId) : Nat := ((s.types.get? type).map (·.symbol.index)).getD 0
  have numbers : (types.map number).Nodup := by
    refine List.Nodup.map_on ?_ nodup
    intro a ha b hb same
    obtain ⟨info, hi, -⟩ := within a ha
    obtain ⟨info', hi', -⟩ := within b hb
    exact distinct a ha b hb info info' hi hi'
      (congrArg SymbolId.mk (by simpa [number, hi, hi'] using same))
  have inside : types.map number ⊆ List.range' first count := by
    intro n hn
    obtain ⟨type, ht, rfl⟩ := List.mem_map.1 hn
    obtain ⟨info, hi, bounds⟩ := within type ht
    simpa [number, hi, List.mem_range'_1] using bounds
  simpa using (List.Nodup.subperm numbers inside).length_le

/-- There are no more types of scripts than symbols in the codebase. -/
theorem Sound.length_scripts_le (h : Sound c s) {types : List TypeId} (nodup : types.Nodup)
    (scripts : ∀ type ∈ types, ∃ info, s.types.get? type = some info ∧ info.isScript) :
    types.length ≤ c.symbols.size := by
  refine length_types_le s c.symbols.base nodup (fun type ht => ?_)
    fun a ha b hb info info' hi hi' same => ?_
  · obtain ⟨info, hi, script⟩ := scripts type ht
    obtain ⟨symbol, hs, -⟩ := (h.infos hi).script script
    have owned := SymbolTable.owns_of_get? hs
    simp only [SymbolTable.owns, Bool.and_eq_true, decide_eq_true_eq] at owned
    exact ⟨info, hi, owned⟩
  · obtain ⟨_, found, script⟩ := scripts a ha
    cases hi.symm.trans found
    obtain ⟨_, found', script'⟩ := scripts b hb
    cases hi'.symm.trans found'
    obtain ⟨symbol, hs, -, -, hq⟩ := (h.infos hi).script script
    obtain ⟨symbol', hs', -, -, hq'⟩ := (h.infos hi').script script'
    rw [same, hs'] at hs
    cases hs
    exact h.distinct hi hi' script script' (by rw [hq, hq'])

/-- A type that arrays can have elements of: one that is found by its qualified name. -/
def IsElement (s : Session) (type : TypeId) : Prop :=
  ∃ info, s.types.get? type = some info ∧
    (info.isIntrinsic ∨ info.isDeclared ∧ TypeTable.intrinsic? info.qualifiedName = none)

theorem IsElement.extends {type : TypeId} (h : s.IsElement type) (e : s.Extends s') :
    s'.IsElement type := by
  obtain ⟨info, hi, element⟩ := h
  exact ⟨info, e.types hi, element⟩

/-- The name of a type that arrays can have elements of is one of finitely many. -/
theorem Sound.elementKey (h : Sound c s) {type : TypeId} {info : TypeInfo}
    (element : s.IsElement type) (hi : s.types.get? type = some info) :
    Text.lowercase info.qualifiedName ∈ c.elementKeys := by
  have stands : ∀ {kind}, info.Stands c kind →
      Text.lowercase info.qualifiedName ∈ c.elementKeys := by
    rintro kind ⟨symbol, hs, -, -, hq⟩
    rw [hq]
    exact List.mem_append_right _ (List.mem_map_of_mem (SymbolTable.mem_of_get? hs))
  obtain ⟨info', hi', shape⟩ := element
  cases hi.symm.trans hi'
  rcases shape with intrinsic | ⟨declared, -⟩
  · unfold TypeInfo.isIntrinsic at intrinsic
    split at intrinsic
    · rename_i kind hf
      rw [(h.infos hi).intrinsic hf]
      exact List.mem_append_left _ (List.mem_map_of_mem (by cases kind <;> decide))
    · cases intrinsic
  · rcases Bool.or_eq_true_iff.1 declared with script | struct
    · exact stands ((h.infos hi).script script)
    · exact stands ((h.infos hi).struct struct)

end Session

end PapyrusAnalysis
