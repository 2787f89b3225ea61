import PapyrusAnalysis.Proofs.Session.Correspondence

/-!
# What is the same in all sessions

The number of a type depends on what was asked before. What does not depend on it is what the type
stands for: an intrinsic type, a script, a struct by its place in the script, or an array by the
type of its elements. If the qualified names of scripts and structs are distinct, every session has
at most one type for each of these, with content that differs in numbers only.

## Main definitions

* `Codebase.Unambiguous`: scripts and structs have distinct qualified names.
* `TypeKey`: what a type stands for.
* `Session.Canonical`: a session whose types are determined by what they stand for.
-/

namespace PapyrusAnalysis

namespace Codebase

variable {c : Codebase}

/-- Whether a symbol is that of a script or struct. -/
def namesType (symbol : Symbol) : Bool := symbol.kind = .script || symbol.kind = .struct

/-- No two scripts or structs have the same qualified name, in any case. -/
def Unambiguous (c : Codebase) : Prop :=
  ∀ a b x y, c.symbols.get? a = some x → c.symbols.get? b = some y → namesType x → namesType y →
    Text.lowercase x.qualifiedName = Text.lowercase y.qualifiedName → a = b

/-- Whether two symbols name types in the same way. -/
def sameTypeName : Option Symbol → Option Symbol → Bool
  | some x, some y => namesType x && namesType y &&
      Text.lowercase x.qualifiedName = Text.lowercase y.qualifiedName
  | _, _ => false

theorem unambiguous_iff : c.Unambiguous ↔ ∀ a ∈ c.symbols.ids, ∀ b ∈ c.symbols.ids,
    sameTypeName (c.symbols.get? a) (c.symbols.get? b) → a = b := by
  constructor
  · intro h a _ b _ same
    cases hx : c.symbols.get? a with
    | none => simp [hx, sameTypeName] at same
    | some x =>
      cases hy : c.symbols.get? b with
      | none => simp [hy, sameTypeName] at same
      | some y =>
        simp only [hx, hy, sameTypeName, Bool.and_eq_true, decide_eq_true_eq] at same
        exact h a b x y hx hy same.1.1 same.1.2 same.2
  · intro h a b x y hx hy names names' same
    refine h a (SymbolTable.mem_ids.2 (SymbolTable.owns_of_get? hx)) b
      (SymbolTable.mem_ids.2 (SymbolTable.owns_of_get? hy)) ?_
    simp [hx, hy, sameTypeName, names, names', same]

instance : Decidable c.Unambiguous := decidable_of_iff _ unambiguous_iff.symm

/-- The structs of a script. -/
def structs (c : Codebase) (script : Symbol) : List (SymbolId × Symbol) :=
  script.members.filterMap fun id =>
    match c.symbols.get? id with
    | some symbol => if symbol.kind = .struct then some (id, symbol) else none
    | none => none

theorem mem_structs {script : Symbol} {entry : SymbolId × Symbol} (h : entry ∈ c.structs script) :
    entry.1 ∈ script.members ∧ c.symbols.get? entry.1 = some entry.2 ∧ entry.2.kind = .struct := by
  simp only [structs, List.mem_filterMap] at h
  obtain ⟨id, hid, hs⟩ := h
  split at hs
  · split at hs
    · cases hs
      exact ⟨hid, by assumption, by assumption⟩
    · cases hs
  · cases hs

/-- Every session selects the same structs of a script. -/
theorem select_eq_structs (hc : c.Sound) (s : Session) {id : SymbolId} {script : Symbol}
    (hs : c.symbols.get? id = some script) :
    s.selectNumbered c script.members (·.kind = .struct) = c.structs script := by
  rw [Session.selectNumbered_members hc.symbols s hs]
  refine List.filterMap_congr fun member hm => ?_
  have owned := (hc.symbols.fits hs).owned member (by simp [hm])
  rw [Session.symbol?_own s owned]
  cases c.symbols.get? member with
  | none => rfl
  | some symbol => simp only [decide_eq_true_eq]

/-- The name of a type that arrays can have elements of, as it is spelled in its declaration. -/
def IsElementName (c : Codebase) (name : String) : Prop :=
  (∃ kind : Intrinsic, name = kind.name) ∨
    TypeTable.intrinsic? name = none ∧ ∃ id symbol, c.symbols.get? id = some symbol ∧
      namesType symbol ∧ name = symbol.qualifiedName

theorem intrinsic?_congr {name name' : String} (h : Text.lowercase name = Text.lowercase name') :
    TypeTable.intrinsic? name = TypeTable.intrinsic? name' := by
  rw [TypeTable.intrinsic?, TypeTable.intrinsic?, h]

/-- The names of elements differ in more than their case. -/
theorem Unambiguous.eq_of_lowercase (h : c.Unambiguous) {name name' : String}
    (element : c.IsElementName name) (element' : c.IsElementName name')
    (same : Text.lowercase name = Text.lowercase name') : name = name' := by
  rcases element with ⟨kind, rfl⟩ | ⟨foreign, id, symbol, hs, names, rfl⟩
  · rcases element' with ⟨kind', rfl⟩ | ⟨foreign', -⟩
    · cases kind <;> cases kind' <;> first | rfl | exact absurd same (by decide)
    · rw [← intrinsic?_congr same] at foreign'
      cases kind <;> exact absurd foreign' (by decide)
  · rcases element' with ⟨kind', rfl⟩ | ⟨-, id', symbol', hs', names', rfl⟩
    · rw [intrinsic?_congr same] at foreign
      cases kind' <;> exact absurd foreign (by decide)
    · cases h id id' symbol symbol' hs hs' names names' same
      cases hs.symm.trans hs'
      rfl

end Codebase

/-- What a type stands for. -/
inductive TypeKey where
  | intrinsic (kind : Intrinsic)
  | script (symbol : SymbolId)
  /-- A struct by its place among the structs of a script. -/
  | struct (script : SymbolId) (place : Nat)
  | array (element : String)

namespace Session

variable {c : Codebase} {s s' : Session}

/-- A type is that of a script. -/
def ScriptAt (s : Session) (script : SymbolId) (id : TypeId) : Prop :=
  ∃ info, s.types.get? id = some info ∧ info.isScript ∧ info.symbol = script

/-- A type of a session stands for something. -/
def TypeAt (c : Codebase) (s : Session) : TypeKey → TypeId → Prop
  | .intrinsic kind, id => id = kind.typeId
  | .script symbol, id => s.ScriptAt symbol id
  | .struct script place, id => ∃ type symbol, s.ScriptAt script type ∧
      c.symbols.get? script = some symbol ∧ place < (c.structs symbol).length ∧
      id = ⟨type.index + 1 + place⟩
  | .array element, id => ∃ start, s.types.get? id = some (arrayInfo element start id)

theorem ScriptAt.extends {script : SymbolId} {id : TypeId} (h : s.ScriptAt script id)
    (e : s.Extends s') : s'.ScriptAt script id := by
  obtain ⟨info, hi, rest⟩ := h
  exact ⟨info, e.types hi, rest⟩

theorem TypeAt.extends {key : TypeKey} {id : TypeId} (h : s.TypeAt c key id) (e : s.Extends s') :
    s'.TypeAt c key id := by
  cases key with
  | intrinsic kind => exact h
  | script symbol => exact ScriptAt.extends h e
  | struct script place =>
    obtain ⟨type, symbol, at', rest⟩ := h
    exact ⟨type, symbol, at'.extends e, rest⟩
  | array element =>
    obtain ⟨start, hi⟩ := h
    exact ⟨start, e.types hi⟩

/-- A session whose types are determined by what they stand for. -/
structure Canonical (c : Codebase) (s : Session) : Prop where
  sound : s.Sound c
  initial : (Session.initial c).Extends s
  confined : s.arrays.keys ⊆ c.elementKeys
  /-- The type of a script is followed by those of its structs. -/
  scripts : ∀ {script id}, s.ScriptAt script id → ∃ symbol, c.symbols.get? script = some symbol ∧
    ∀ {i make}, (scriptBlock id.index script symbol (c.structs symbol))[i]? = some make →
      s.types.get? ⟨id.index + i⟩ = some (make ⟨id.index + i⟩)
  arrays : ∀ {key id}, s.arrays.find? key = some id → ∃ element start,
    s.types.get? id = some (arrayInfo element start id) ∧ c.IsElementName element ∧
      Text.lowercase element = key
  /-- An array type is found by the name of its elements and by its symbol, whose block follows. -/
  arrayTypes : ∀ {id info element}, s.types.get? id = some info → info.form = .array element →
    s.arrays.find? (Text.lowercase element) = some id ∧ s.arraySymbols.find? info.symbol = some id ∧
      ∃ start, info = arrayInfo element start id ∧ ∀ {i symbol},
        (ArrayMembers.block element start)[i]? = some symbol →
          s.synthetic.get? ⟨start + i⟩ = some symbol

theorem Canonical.withPending (h : Canonical c s) (pending : List NodeId) :
    Canonical c { s with pending := pending } where
  sound := h.sound.withPending pending
  initial := ⟨h.initial.types, h.initial.synthetic⟩
  confined := h.confined
  scripts := h.scripts
  arrays := h.arrays
  arrayTypes := h.arrayTypes

theorem canonical_initial (room : c.symbols.base + c.symbols.size + 7 ≤ SymbolId.limit) :
    Canonical c (initial c) where
  sound := sound_initial c room
  initial := .refl _
  confined := List.nil_subset _
  scripts := by
    rintro script id ⟨info, hi, script', -⟩
    obtain ⟨⟨kind, hf, -⟩, -⟩ := infos_initial hi
    simp [TypeInfo.isScript, hf] at script'
  arrays h := by cases h
  arrayTypes := by
    intro id info element hi hf
    obtain ⟨⟨kind, hf', -⟩, -⟩ := infos_initial hi
    cases hf.symm.trans hf'

/-! ## One more script or array -/

theorem Canonical.withScript (h : Canonical c s) {script : SymbolId} {symbol : Symbol}
    (hs : c.symbols.get? script = some symbol) (kind : symbol.kind = .script)
    (fresh : s.named.find? (qualifiedKey symbol) = none) :
    Canonical c (s.withScript script symbol (c.structs symbol)) := by
  have e := extends_withScript s script symbol (c.structs symbol)
  refine ⟨h.sound.withScript hs kind fresh fun _ hm => (Codebase.mem_structs hm).2,
    h.initial.trans e, h.confined, ?_, ?_, ?_⟩
  · rintro other id ⟨info, hi, isScript, rfl⟩
    rcases TypeTable.get?_extend_cases hi with old | ⟨i, _, rfl, new, rfl⟩
    · obtain ⟨symbol', hs', block⟩ := h.scripts ⟨info, old, isScript, rfl⟩
      exact ⟨symbol', hs', fun hb => e.types (block hb)⟩
    · rcases scriptBlock_cases new with ⟨rfl, rfl⟩ | ⟨j, entry, -, -, rfl⟩
      · exact ⟨symbol, hs, fun hb => (TypeTable.get?_extend _ _ _).trans
          (Option.map_eq_some_iff.2 ⟨_, hb, rfl⟩)⟩
      · cases isScript
  · intro key id hfind
    obtain ⟨element, start, hi, rest⟩ := h.arrays hfind
    exact ⟨element, start, e.types hi, rest⟩
  · intro id info element hi hf
    rcases TypeTable.get?_extend_cases hi with old | ⟨i, _, rfl, new, rfl⟩
    · exact h.arrayTypes old hf
    · rcases scriptBlock_cases new with ⟨rfl, rfl⟩ | ⟨j, entry, -, -, rfl⟩ <;> cases hf

theorem Canonical.withArray (h : Canonical c s) {element : String}
    (name : c.IsElementName element) (known : Text.lowercase element ∈ c.elementKeys)
    (room : s.nextSymbol + 27 ≤ SymbolId.limit)
    (fresh : s.arrays.find? (Text.lowercase element) = none) :
    Canonical c (s.withArray element) := by
  have e := extends_withArray s element
  refine ⟨h.sound.withArray room fresh, h.initial.trans e, ?_, ?_, ?_, ?_⟩
  · rw [keys_withArray fresh]
    exact List.append_subset.2 ⟨h.confined, by simpa using known⟩
  · rintro script id ⟨info, hi, isScript, rfl⟩
    rcases get?_withArray_cases hi with old | ⟨-, rfl⟩
    · obtain ⟨symbol, hs, block⟩ := h.scripts ⟨info, old, isScript, rfl⟩
      exact ⟨symbol, hs, fun hb => e.types (block hb)⟩
    · cases isScript
  · intro key id hfind
    change (s.arrays.insert _ _).find? key = some id at hfind
    rw [Registry.find?_insert] at hfind
    split at hfind
    · cases hfind
      exact ⟨element, s.nextSymbol, get?_withArray s element, name, by assumption⟩
    · obtain ⟨other, start, hi, rest⟩ := h.arrays hfind
      exact ⟨other, start, e.types hi, rest⟩
  · intro id info other hi hf
    change (s.arrays.insert _ _).find? _ = _ ∧ (s.arraySymbols.insert _ _).find? _ = _ ∧ _
    rw [Registry.find?_insert, Registry.find?_insert]
    rcases get?_withArray_cases hi with old | ⟨rfl, rfl⟩
    · obtain ⟨found, symbol, start, rfl, block⟩ := h.arrayTypes old hf
      -- The symbols of an array that was there before come before those of the new one.
      have before : start < s.nextSymbol := by
        have first := block (i := 0) rfl
        have owned := SymbolTable.owns_of_get? first
        simp only [SymbolTable.owns, Bool.and_eq_true, decide_eq_true_eq] at owned
        exact owned.2
      refine ⟨?_, ?_, start, rfl, fun hb => e.synthetic (block hb)⟩
      · rw [if_neg, found]
        intro same
        rw [same, found] at fresh
        cases fresh
      · rw [if_neg, symbol]
        intro same
        exact absurd (congrArg SymbolId.index same) (Nat.ne_of_gt before)
    · cases hf
      refine ⟨if_pos rfl, if_pos rfl, s.nextSymbol, rfl, fun hb => ?_⟩
      exact (SymbolTable.get?_extend s.synthetic _ _).trans hb

/-! ## Types and what they stand for -/

theorem Canonical.info_script (h : Canonical c s) {script : SymbolId} {id : TypeId}
    (at' : s.ScriptAt script id) : ∃ symbol, c.symbols.get? script = some symbol ∧
      s.types.get? id = some ⟨id, symbol.name, symbol.qualifiedName, script,
        .script (enterAll nameKey (id.index + 1) (c.structs symbol) ∅)⟩ := by
  obtain ⟨symbol, hs, block⟩ := h.scripts at'
  exact ⟨symbol, hs, block (i := 0) rfl⟩

theorem Canonical.info_struct (h : Canonical c s) {script : SymbolId} {type : TypeId}
    {symbol : Symbol} {place : Nat} (at' : s.ScriptAt script type)
    (hs : c.symbols.get? script = some symbol) (inside : place < (c.structs symbol).length) :
    s.types.get? ⟨type.index + 1 + place⟩ =
      some (structInfo type (c.structs symbol)[place] ⟨type.index + 1 + place⟩) := by
  obtain ⟨symbol', hs', block⟩ := h.scripts at'
  cases hs.symm.trans hs'
  have placed : (scriptBlock type.index script symbol (c.structs symbol))[place + 1]? =
      some (structInfo type (c.structs symbol)[place]) := by
    simp [scriptBlock, inside]
  have found := block placed
  rwa [show type.index + (place + 1) = type.index + 1 + place by omega] at found

/-- A session has one type for a script. -/
theorem Canonical.script_unique (h : Canonical c s) {script : SymbolId} {a b : TypeId}
    (ha : s.ScriptAt script a) (hb : s.ScriptAt script b) : a = b := by
  obtain ⟨symbol, hs, hi⟩ := h.info_script ha
  obtain ⟨symbol', hs', hi'⟩ := h.info_script hb
  cases hs.symm.trans hs'
  exact h.sound.distinct hi hi' rfl rfl rfl

/-- A session has one type for each thing. -/
theorem Canonical.type_unique (h : Canonical c s) {key : TypeKey} {a b : TypeId}
    (ha : s.TypeAt c key a) (hb : s.TypeAt c key b) : a = b := by
  cases key with
  | intrinsic kind =>
    obtain rfl : a = kind.typeId := ha
    exact Eq.symm hb
  | script symbol => exact h.script_unique ha hb
  | struct script place =>
    obtain ⟨type, symbol, at', -, -, rfl⟩ := ha
    obtain ⟨type', symbol', at'', -, -, rfl⟩ := hb
    rw [h.script_unique at' at'']
  | array element =>
    obtain ⟨start, hi⟩ := ha
    obtain ⟨start', hi'⟩ := hb
    have found := (h.arrayTypes hi rfl).1
    exact Option.some.inj (found.symm.trans (h.arrayTypes hi' rfl).1)

/-- What a type with some number and symbol is made of if it stands for something. -/
def MadeOf (s : Session) (id : TypeId) (symbol : SymbolId) : TypeKey → TypeForm → Prop
  | .intrinsic kind, .intrinsic kind' => kind = kind'
  | .script script, .script _ => symbol = script
  | .struct script place, .struct type =>
    s.ScriptAt script type ∧ id.index = type.index + 1 + place
  | .array element, .array element' => element = element'
  | _, _ => False

theorem Canonical.madeOf (h : Canonical c s) {key : TypeKey} {id : TypeId}
    (at' : s.TypeAt c key id) : ∃ info, s.types.get? id = some info ∧
      s.MadeOf id info.symbol key info.form := by
  cases key with
  | intrinsic kind =>
    obtain rfl : id = kind.typeId := at'
    exact ⟨_, h.initial.types (types_initial c kind), rfl⟩
  | script symbol =>
    obtain ⟨symbol', hs, hi⟩ := h.info_script at'
    exact ⟨_, hi, rfl⟩
  | struct script place =>
    obtain ⟨type, symbol, at'', hs, inside, rfl⟩ := at'
    exact ⟨_, h.info_struct at'' hs inside, at'', rfl⟩
  | array element =>
    obtain ⟨start, hi⟩ := at'
    exact ⟨_, hi, rfl⟩

/-- A type stands for one thing. -/
theorem Canonical.key_unique (h : Canonical c s) {key key' : TypeKey} {id : TypeId}
    (ha : s.TypeAt c key id) (hb : s.TypeAt c key' id) : key = key' := by
  obtain ⟨info, hi, made⟩ := h.madeOf ha
  obtain ⟨info', hi', made'⟩ := h.madeOf hb
  cases hi.symm.trans hi'
  cases hf : info.form with
  | intrinsic kind =>
    rw [hf] at made made'
    cases key <;> cases key' <;> simp_all [MadeOf]
  | script table =>
    rw [hf] at made made'
    cases key <;> cases key' <;> simp_all [MadeOf]
  | array element =>
    rw [hf] at made made'
    cases key <;> cases key' <;> simp_all [MadeOf]
  | struct type =>
    rw [hf] at made made'
    cases key with
    | struct script place =>
      cases key' with
      | struct script' place' =>
        obtain ⟨⟨scriptInfo, hs, -, rfl⟩, hid⟩ := made
        obtain ⟨⟨scriptInfo', hs', -, rfl⟩, hid'⟩ := made'
        cases hs.symm.trans hs'
        rw [show place = place' by omega]
      | _ => cases made'
    | _ => cases made

/-! ## Questions -/

/-- The type that is found for the name of a script is that of the script. -/
theorem Canonical.scriptAt_named (h : Canonical c s) (unambiguous : c.Unambiguous)
    {script : SymbolId} {symbol : Symbol} {type : TypeId}
    (hs : c.symbols.get? script = some symbol) (kind : symbol.kind = .script)
    (hfind : s.named.find? (qualifiedKey symbol) = some type) : s.ScriptAt script type := by
  obtain ⟨info, hi, declared, same⟩ := h.sound.named hfind
  have stands : ∀ {other}, info.Stands c other → other = .script ∨ other = .struct →
      info.symbol = script ∧ other = .script := by
    rintro _ ⟨symbol', hs', rfl, -, hq⟩ names
    have equal := unambiguous info.symbol script symbol' symbol hs' hs
      (by simpa [Codebase.namesType] using names) (by simp [Codebase.namesType, kind])
      (by rw [← hq, same]; rfl)
    rw [equal] at hs'
    cases hs.symm.trans hs'
    exact ⟨equal, kind⟩
  rcases Bool.or_eq_true_iff.1 declared with isScript | isStruct
  · exact ⟨info, hi, isScript, (stands ((h.sound.infos hi).script isScript) (.inl rfl)).1⟩
  · cases (stands ((h.sound.infos hi).struct isStruct) (.inr rfl)).2

/-- The type of a script of the codebase is found or made. -/
theorem Canonical.scriptType (hc : c.Sound) (unambiguous : c.Unambiguous) (h : Canonical c s)
    {script : SymbolId} {symbol : Symbol} (hs : c.symbols.get? script = some symbol)
    (kind : symbol.kind = .script) (declared : symbol.isGeneratedArray = false) :
    ∃ type s', Query.scriptType c script s = .ok (some type, s') ∧ s.Follows s' ∧
      Canonical c s' ∧ s'.arrays = s.arrays ∧ s'.ScriptAt script type := by
  rw [Query.scriptType_eq, Session.symbol?_own s (SymbolTable.owns_of_get? hs), hs]
  dsimp only
  rw [if_neg (by simp [kind]), if_neg (by simp [declared])]
  split
  · rename_i type hfind
    exact ⟨type, s, rfl, .refl s, h, rfl, h.scriptAt_named unambiguous hs kind hfind⟩
  · rename_i fresh
    rw [Codebase.select_eq_structs hc s hs]
    refine ⟨_, _, rfl, follows_withScript s script symbol _, h.withScript hs kind fresh, rfl, ?_⟩
    exact ⟨_, get?_withScript_script s script symbol _, rfl, rfl⟩

/-- An array type is found or made, unless there is no room for its symbols. -/
theorem Canonical.arrayOf (unambiguous : c.Unambiguous) (h : Canonical c s) {element : String}
    (name : c.IsElementName element) (known : Text.lowercase element ∈ c.elementKeys) :
    (∃ type s', Query.arrayOf element s = .ok (some type, s') ∧ s.Follows s' ∧ Canonical c s' ∧
      s'.TypeAt c (.array element) type ∧
      ∀ key, key ∈ s'.arrays.keys ↔ key ∈ s.arrays.keys ∨ key = Text.lowercase element) ∨
    Query.arrayOf element s = .error .symbolsExhausted ∧ ¬ s.nextSymbol + 27 ≤ SymbolId.limit ∧
      s.arrays.find? (Text.lowercase element) = none := by
  rw [Query.arrayOf_eq element h.sound.room]
  split
  · rename_i type hfind
    obtain ⟨element', start, hi, name', same⟩ := h.arrays hfind
    cases unambiguous.eq_of_lowercase name' name same
    refine .inl ⟨type, s, rfl, .refl s, h, ⟨start, hi⟩, fun key => ?_⟩
    have present : Text.lowercase element ∈ s.arrays.keys :=
      Registry.mem_keys_iff.2 (Registry.contains_iff.2 ⟨type, hfind⟩)
    exact ⟨.inl, fun hkey => hkey.elim id fun hkey => hkey ▸ present⟩
  · rename_i fresh
    split
    · rename_i room
      refine .inl ⟨_, _, rfl, follows_withArray s element, h.withArray name known room fresh,
        ⟨_, get?_withArray s element⟩, fun key => ?_⟩
      have absent : s.arrays.contains (Text.lowercase element) = false := by
        simp [Registry.contains, fresh]
      change key ∈ (s.arrays.insert _ _).keys ↔ _
      rw [Registry.keys_insert, absent]
      simp
    · rename_i full
      exact .inr ⟨rfl, full, fresh⟩

end Session

end PapyrusAnalysis
