import PapyrusAnalysis.Proofs.Codebase
import PapyrusAnalysis.Proofs.Session.ArrayMembers
import PapyrusAnalysis.Session.Resolution

/-!
# How sessions grow

Types are made in blocks: the seven intrinsic types at the start, a script's type followed by those
of its structs, and an array type with the block of its symbols. Each block is written down here as
a value, so that a step of a session is an equation. No step changes what was there before.

## Main definitions

* `TypeTable.extend`: a table with some more types.
* `Session.Extends`: how one session may follow another.
* `Session.withScript`, `Session.withArray`: sessions with one more block.
-/

namespace PapyrusAnalysis

namespace TypeTable

variable {t : TypeTable}

/-- A table with some more types, which get the next numbers. -/
def extend (t : TypeTable) (infos : List (TypeId → TypeInfo)) : TypeTable :=
  ⟨t.types ++ (infos.mapIdx fun i info => info ⟨t.size + i⟩).toArray⟩

@[simp] theorem size_extend (t : TypeTable) (infos : List (TypeId → TypeInfo)) :
    (t.extend infos).size = t.size + infos.length := by
  simp [extend, size]

@[simp] theorem extend_nil (t : TypeTable) : t.extend [] = t := by simp [extend]

theorem size_add (t : TypeTable) (name qualifiedName : String) (symbol : SymbolId)
    (form : TypeForm) : (t.add name qualifiedName symbol form).size = t.size + 1 := by
  simp [add, size]

theorem extend_add (t : TypeTable) (name qualifiedName : String) (symbol : SymbolId)
    (form : TypeForm) (infos : List (TypeId → TypeInfo)) :
    (t.add name qualifiedName symbol form).extend infos =
      t.extend ((⟨·, name, qualifiedName, symbol, form⟩) :: infos) := by
  simp [extend, size_add, List.mapIdx_cons, Nat.add_assoc, Nat.add_comm 1]
  simp [add, nextId]

theorem get?_extend (t : TypeTable) (infos : List (TypeId → TypeInfo)) (i : Nat) :
    (t.extend infos).get? ⟨t.size + i⟩ = infos[i]?.map (· ⟨t.size + i⟩) := by
  change (t.types ++ _)[t.types.size + i]? = _
  rw [Array.getElem?_append_right (Nat.le_add_right _ _), Nat.add_sub_cancel_left,
    List.getElem?_toArray, List.getElem?_mapIdx]

theorem modify_extend (t : TypeTable) (info : TypeId → TypeInfo)
    (infos : List (TypeId → TypeInfo)) (f : TypeInfo → TypeInfo) :
    (t.extend (info :: infos)).types.modify t.size f = (t.extend (f ∘ info :: infos)).types := by
  apply Array.ext_getElem?
  intro i
  simp only [extend, Array.getElem?_modify, Array.getElem?_append, size, List.mapIdx_cons]
  grind

theorem get?_extend_of_get? {infos : List (TypeId → TypeInfo)} {id : TypeId} {info : TypeInfo}
    (h : t.get? id = some info) : (t.extend infos).get? id = some info := by
  obtain ⟨inside, -⟩ := Array.getElem?_eq_some_iff.1 h
  simpa [get?, extend, Array.getElem?_append_left inside] using h

/-- What is found in an extended table was there before, or is one of the new types. -/
theorem get?_extend_cases {infos : List (TypeId → TypeInfo)} {id : TypeId} {info : TypeInfo}
    (h : (t.extend infos).get? id = some info) :
    t.get? id = some info ∨
      ∃ i make, id = ⟨t.size + i⟩ ∧ infos[i]? = some make ∧ make id = info := by
  by_cases inside : id.index < t.size
  · left
    have : id.index < t.types.size := inside
    simpa [get?, extend, Array.getElem?_append_left this] using h
  · have split : id = ⟨t.size + (id.index - t.size)⟩ := by
      cases id
      simp only at inside ⊢
      congr
      omega
    rw [split, get?_extend] at h
    obtain ⟨make, found, made⟩ := Option.map_eq_some_iff.1 h
    exact .inr ⟨_, make, split, found, by rw [split, made]⟩

theorem get_eq_ok {id : TypeId} {info : TypeInfo} (h : t.get? id = some info) :
    t.get id = .ok info := by
  simp [get, h]

theorem get_eq_error {id : TypeId} (h : t.get? id = none) :
    t.get id = .error (.unknownType id.index) := by
  simp [get, h]

end TypeTable

namespace Session

variable {c : Codebase} {s s' s'' : Session}

/-- The types and symbols of a session are those of another one as well. -/
structure Extends (s s' : Session) : Prop where
  types : ∀ {id info}, s.types.get? id = some info → s'.types.get? id = some info
  synthetic : ∀ {id symbol}, s.synthetic.get? id = some symbol →
    s'.synthetic.get? id = some symbol

theorem Extends.refl (s : Session) : s.Extends s := ⟨fun h => h, fun h => h⟩

theorem Extends.trans (h : s.Extends s') (h' : s'.Extends s'') : s.Extends s'' :=
  ⟨fun hi => h'.types (h.types hi), fun hs => h'.synthetic (h.synthetic hs)⟩

theorem Extends.symbol? (h : s.Extends s') {id : SymbolId} {symbol : Symbol}
    (hs : s.symbol? c id = some symbol) : s'.symbol? c id = some symbol := by
  unfold Session.symbol? at hs ⊢
  split
  · simpa [*] using hs
  · exact h.synthetic (by simpa [*] using hs)

theorem symbol?_own (s : Session) {id : SymbolId} (h : c.symbols.owns id) :
    s.symbol? c id = c.symbols.get? id := by
  simp [Session.symbol?, h]

theorem symbol?_synthetic (s : Session) {id : SymbolId} (h : ¬ c.symbols.owns id) :
    s.symbol? c id = s.synthetic.get? id := by
  simp [Session.symbol?, h]

/-! ## Scripts -/

/-- Enters some symbols under their keys. Their types have the numbers from `next` on. -/
def enterAll (key : Symbol → String) :
    Nat → List (SymbolId × Symbol) → Registry String TypeId → Registry String TypeId
  | _, [], table => table
  | next, (_, symbol) :: rest, table =>
    enterAll key (next + 1) rest (table.insert (key symbol) ⟨next⟩)

def nameKey (symbol : Symbol) : String := Text.lowercase symbol.name

def qualifiedKey (symbol : Symbol) : String := Text.lowercase symbol.qualifiedName

/-- The type of a struct that belongs to a script. -/
def structInfo (script : TypeId) (entry : SymbolId × Symbol) (id : TypeId) : TypeInfo :=
  ⟨id, entry.2.name, entry.2.qualifiedName, entry.1, .struct script⟩

/-- The type of a script with some structs, followed by the types of these. -/
def scriptBlock (script : Nat) (id : SymbolId) (symbol : Symbol)
    (structs : List (SymbolId × Symbol)) : List (TypeId → TypeInfo) :=
  (⟨·, symbol.name, symbol.qualifiedName, id,
    .script (enterAll nameKey (script + 1) structs ∅)⟩) :: structs.map (structInfo ⟨script⟩)

/-- A session with the block of a script. -/
def withScript (s : Session) (id : SymbolId) (symbol : Symbol)
    (structs : List (SymbolId × Symbol)) : Session :=
  { s with
    types := s.types.extend (scriptBlock s.types.size id symbol structs)
    named := enterAll qualifiedKey (s.types.size + 1) structs
      (s.named.insert (qualifiedKey symbol) ⟨s.types.size⟩) }

theorem addStructTypes_eq (script : TypeId) (structs : List (SymbolId × Symbol))
    (table : Registry String TypeId) (s : Session) :
    addStructTypes script structs table s =
      (enterAll nameKey s.types.size structs table,
        { s with
          types := s.types.extend (structs.map (structInfo script))
          named := enterAll qualifiedKey s.types.size structs s.named }) := by
  induction structs generalizing table s with
  | nil => simp [addStructTypes, enterAll]
  | cons entry rest ih =>
    obtain ⟨id, symbol⟩ := entry
    rw [addStructTypes, ih]
    simp only [enterAll, TypeTable.size_add, TypeTable.extend_add, List.map_cons]
    rfl

theorem addScriptType_eq (s : Session) (id : SymbolId) (symbol : Symbol)
    (structs : List (SymbolId × Symbol)) :
    s.addScriptType id symbol structs = (⟨s.types.size⟩, s.withScript id symbol structs) := by
  simp only [addScriptType, addStructTypes_eq, TypeTable.size_add, TypeTable.extend_add,
    TypeTable.nextId, TypeTable.modify_extend]
  rfl

theorem extends_withScript (s : Session) (id : SymbolId) (symbol : Symbol)
    (structs : List (SymbolId × Symbol)) : s.Extends (s.withScript id symbol structs) :=
  ⟨TypeTable.get?_extend_of_get?, fun h => h⟩

/-- What is found after entering some symbols was there before, or is the type of one of them. -/
theorem find?_enterAll {key : Symbol → String} {next : Nat} {entries : List (SymbolId × Symbol)}
    {table : Registry String TypeId} {k : String} {id : TypeId}
    (h : (enterAll key next entries table).find? k = some id) :
    table.find? k = some id ∨
      ∃ i entry, entries[i]? = some entry ∧ key entry.2 = k ∧ id = ⟨next + i⟩ := by
  induction entries generalizing next table with
  | nil => exact .inl h
  | cons entry rest ih =>
    rcases ih h with old | ⟨i, other, hi, hk, rfl⟩
    · rw [Registry.find?_insert] at old
      split at old
      · cases old
        exact .inr ⟨0, entry, rfl, by assumption, rfl⟩
      · exact .inl old
    · exact .inr ⟨i + 1, other, by simpa using hi, hk, by simp only [Nat.add_assoc, Nat.add_comm 1]⟩

theorem find?_enterAll_of_ne {key : Symbol → String} {next : Nat}
    {entries : List (SymbolId × Symbol)} {table : Registry String TypeId} {k : String}
    (h : ∀ entry ∈ entries, key entry.2 ≠ k) :
    (enterAll key next entries table).find? k = table.find? k := by
  induction entries generalizing next table with
  | nil => rfl
  | cons entry rest ih =>
    obtain ⟨id, symbol⟩ := entry
    rw [enterAll, ih fun other ho => h other (by simp [ho]), Registry.find?_insert,
      if_neg (h (id, symbol) (by simp))]

theorem contains_enterAll {key : Symbol → String} {next : Nat}
    {entries : List (SymbolId × Symbol)} {table : Registry String TypeId} {k : String}
    (h : table.contains k) : (enterAll key next entries table).contains k := by
  induction entries generalizing next table with
  | nil => exact h
  | cons entry rest ih =>
    refine ih ?_
    rw [Registry.contains, Registry.find?_insert]
    split
    · rfl
    · exact h

/-- Where two numberings start makes no difference to what is found. -/
theorem enterAll_alike (key : Symbol → String) (entries : List (SymbolId × Symbol))
    {n m k : Nat} {table table' : Registry String TypeId} {name : String}
    (h : Option.Rel (fun a b : TypeId => ∃ i, i < k ∧ a = ⟨n + i⟩ ∧ b = ⟨m + i⟩)
      (table.find? name) (table'.find? name)) :
    Option.Rel (fun a b : TypeId => ∃ i, i < k + entries.length ∧ a = ⟨n + i⟩ ∧ b = ⟨m + i⟩)
      ((enterAll key (n + k) entries table).find? name)
      ((enterAll key (m + k) entries table').find? name) := by
  induction entries generalizing k table table' with
  | nil => exact h
  | cons entry rest ih =>
    obtain ⟨id, symbol⟩ := entry
    simp only [enterAll, List.length_cons]
    rw [show k + (rest.length + 1) = k + 1 + rest.length by omega, Nat.add_assoc n, Nat.add_assoc m]
    refine ih ?_
    rw [Registry.find?_insert, Registry.find?_insert]
    split
    · exact .some ⟨k, by omega, rfl, rfl⟩
    · refine h.imp ?_
      rintro _ _ ⟨i, hi, rfl, rfl⟩
      exact ⟨i, by omega, rfl, rfl⟩

/-! ## Arrays -/

/-- The array type with elements of a type, whose symbols start at a number. -/
def arrayInfo (element : String) (start : Nat) (id : TypeId) : TypeInfo :=
  ⟨id, ArrayMembers.arrayName element, ArrayMembers.arrayName element, ⟨start⟩, .array element⟩

/-- The number of the next symbol that a session makes. -/
def nextSymbol (s : Session) : Nat := s.synthetic.base + s.synthetic.size

/-- A session with one more array type. -/
def withArray (s : Session) (element : String) : Session :=
  { s with
    types := s.types.extend [arrayInfo element s.nextSymbol]
    synthetic := s.synthetic.extend (ArrayMembers.block element s.nextSymbol)
    arrays := s.arrays.insert (Text.lowercase element) ⟨s.types.size⟩
    arraySymbols := s.arraySymbols.insert ⟨s.nextSymbol⟩ ⟨s.types.size⟩ }

theorem extends_withArray (s : Session) (element : String) : s.Extends (s.withArray element) where
  types := TypeTable.get?_extend_of_get?
  synthetic {id symbol} h := by
    have inside := SymbolTable.owns_of_get? h
    simp only [SymbolTable.owns, Bool.and_eq_true, decide_eq_true_eq] at inside
    exact (SymbolTable.get?_extend_of_lt _ _ inside.2).trans h

/-! ## The start -/

def intrinsicInfos : Nat → List Intrinsic → List (TypeId → TypeInfo)
  | _, [] => []
  | next, kind :: rest =>
    (⟨·, kind.name, kind.name, ⟨next⟩, .intrinsic kind⟩) :: intrinsicInfos (next + 1) rest

def intrinsicSymbol (kind : Intrinsic) (id : SymbolId) : Symbol :=
  ArrayMembers.added id .intrinsic kind.name none kind.name

/-- The symbols of intrinsic types one after another. -/
def intrinsicSymbols : Nat → List Intrinsic → List Symbol
  | _, [] => []
  | next, kind :: rest =>
    intrinsicSymbol kind ⟨next⟩ :: intrinsicSymbols (next + 1) rest

theorem addIntrinsics_eq (kinds : List Intrinsic) (types : TypeTable) (t : SymbolTable)
    (room : t.base + t.size ≤ SymbolId.limit) :
    TypeTable.addIntrinsics kinds types t =
      if t.base + t.size + kinds.length ≤ SymbolId.limit then
        .ok (types.extend (intrinsicInfos (t.base + t.size) kinds),
          t.extend (intrinsicSymbols (t.base + t.size) kinds))
      else .error .symbolsExhausted := by
  induction kinds generalizing types t with
  | nil =>
    simp [TypeTable.addIntrinsics, intrinsicInfos, intrinsicSymbols, room, pure, Except.pure]
  | cons kind kinds ih =>
    have next : (t.push (t.fresh .intrinsic kind.name none)).base +
        (t.push (t.fresh .intrinsic kind.name none)).size = t.base + t.size + 1 := by
      simp only [SymbolTable.base_push, SymbolTable.size_push]; omega
    have same (rest : List Symbol) : (t.push (t.fresh .intrinsic kind.name none)).extend rest =
        t.extend (intrinsicSymbol kind ⟨t.base + t.size⟩ :: rest) := by
      simp [SymbolTable.extend, SymbolTable.push, SymbolTable.fresh, intrinsicSymbol,
        ArrayMembers.added]
    rw [TypeTable.addIntrinsics, SymbolTable.add_eq]
    change (_ : Outcome _) >>= _ = _
    by_cases fits : t.next.index < SymbolId.limit
    · rw [if_pos fits]
      change t.base + t.size < SymbolId.limit at fits
      change TypeTable.addIntrinsics kinds _ _ = _
      rw [ih _ _ (by rw [next]; omega), next, same, TypeTable.extend_add, List.length_cons]
      simp only [intrinsicInfos, intrinsicSymbols, SymbolTable.next, Nat.add_assoc, Nat.add_comm 1]
    · rw [if_neg fits]
      change ¬ t.base + t.size < SymbolId.limit at fits
      rw [List.length_cons, if_neg (by omega)]
      rfl

/-- The session in which nothing has been asked yet. -/
def initial (c : Codebase) : Session where
  types := TypeTable.extend ⟨#[]⟩ (intrinsicInfos (c.symbols.base + c.symbols.size) Intrinsic.all)
  synthetic := (SymbolTable.startingAt (c.symbols.base + c.symbols.size)).extend
    (intrinsicSymbols (c.symbols.base + c.symbols.size) Intrinsic.all)

theorem start_eq (c : Codebase) :
    start c = if c.symbols.base + c.symbols.size + 7 ≤ SymbolId.limit then .ok (initial c)
      else .error .symbolsExhausted := by
  have same : start c = c.symbols.nextId >>= fun id =>
      TypeTable.initial (.startingAt id.index) >>= fun r =>
        .ok { types := r.1, synthetic := r.2 } :=
    rfl
  rw [same, SymbolTable.nextId]
  by_cases fits : c.symbols.base + c.symbols.size < SymbolId.limit
  · rw [if_pos fits]
    change TypeTable.initial (.startingAt (c.symbols.base + c.symbols.size)) >>= _ = _
    have room : (SymbolTable.startingAt (c.symbols.base + c.symbols.size)).base +
        (SymbolTable.startingAt (c.symbols.base + c.symbols.size)).size ≤ SymbolId.limit :=
      Nat.le_of_lt fits
    rw [TypeTable.initial, addIntrinsics_eq _ _ _ room]
    change (if c.symbols.base + c.symbols.size + 7 ≤ SymbolId.limit then _ else _) >>= _ = _
    split <;> rfl
  · rw [if_neg fits, if_neg (by omega)]
    rfl

end Session

namespace Query

open Session

variable {c : Codebase} {s : Session}

theorem symbol?_eq (c : Codebase) (id : SymbolId) (s : Session) :
    Query.symbol? c id s = .ok (s.symbol? c id, s) := rfl

theorem scriptType_eq (c : Codebase) (id : SymbolId) (s : Session) :
    scriptType c id s = match s.symbol? c id with
      | none => .ok (none, s)
      | some symbol =>
        if symbol.kind ≠ .script then .ok (none, s)
        else if symbol.isGeneratedArray then .ok (s.arraySymbols.find? id, s)
        else match s.named.find? (qualifiedKey symbol) with
          | some type => .ok (some type, s)
          | none => .ok (some ⟨s.types.size⟩,
            s.withScript id symbol (s.selectNumbered c symbol.members (·.kind = .struct))) := by
  unfold scriptType
  rw [bind_ok (symbol?_eq c id s)]
  cases s.symbol? c id with
  | none => rfl
  | some symbol =>
    dsimp only
    by_cases other : symbol.kind ≠ .script
    · rw [if_pos other, if_pos other]
      rfl
    · rw [if_neg other, if_neg other, bind_ok (show (get : Query Session) s = .ok (s, s) from rfl)]
      by_cases generated : symbol.isGeneratedArray = true
      · rw [if_pos generated, if_pos generated]
        rfl
      · rw [if_neg generated, if_neg generated, addScriptType_eq]
        unfold qualifiedKey
        cases s.named.find? (Text.lowercase symbol.qualifiedName) <;> rfl

/-- The array type with elements of a type that is known to exist. -/
def arrayOf (element : String) : Query (Option TypeId) := do
  let key := Text.lowercase element
  if let some type := (← get).arrays.find? key then return type
  let s ← get
  let (symbol, synthetic) ← (ArrayMembers.create element).run s.synthetic
  let name := ArrayMembers.arrayName element
  let type := s.types.nextId
  set { s with
    types := s.types.add name name symbol (.array element)
    synthetic := synthetic
    arrays := s.arrays.insert key type
    arraySymbols := s.arraySymbols.insert symbol type }
  return type

theorem arrayTypeFor_eq (c : Codebase) (element : String) :
    arrayTypeFor c element = (do
      let some _ ← resolveType c element [] | return none
      arrayOf element) := rfl

theorem arrayOf_eq (element : String) (room : s.nextSymbol ≤ SymbolId.limit) :
    arrayOf element s = match s.arrays.find? (Text.lowercase element) with
      | some type => .ok (some type, s)
      | none => if s.nextSymbol + 27 ≤ SymbolId.limit then
          .ok (some ⟨s.types.size⟩, s.withArray element)
        else .error .symbolsExhausted := by
  unfold arrayOf
  rw [bind_ok (show (get : Query Session) s = .ok (s, s) from rfl)]
  dsimp only
  cases s.arrays.find? (Text.lowercase element) with
  | some type => rfl
  | none =>
    dsimp only
    rw [bind_ok (show (get : Query Session) s = .ok (s, s) from rfl)]
    have created : (ArrayMembers.create element).run s.synthetic =
        if s.nextSymbol + 27 ≤ SymbolId.limit then
          .ok (⟨s.nextSymbol⟩, s.synthetic.extend (ArrayMembers.block element s.nextSymbol))
        else .error .symbolsExhausted := ArrayMembers.create_eq element room
    by_cases fits : s.nextSymbol + 27 ≤ SymbolId.limit
    · rw [if_pos fits] at created ⊢
      rw [bind_ok (liftM_ok created s)]
      rw [withArray, ← TypeTable.extend_nil (s.types.add ..), TypeTable.extend_add]
      rfl
    · rw [if_neg fits] at created ⊢
      rw [bind_error (liftM_error created s)]

end Query

end PapyrusAnalysis
