import Mathlib.Data.List.Basic
import PapyrusAnalysis.Symbol.Table

/-!
# Reading symbol tables

What is found in a registry or a symbol table after each way of changing it.

## Main definitions

* `SymbolTable.fresh`: the symbol that an addition enters.
* `SymbolTable.push`: a table with one more symbol.
-/

namespace PapyrusAnalysis

namespace Registry

variable {κ ν : Type}

@[simp] theorem values_empty : (∅ : Registry κ ν).values = [] := rfl

variable [DecidableEq κ]

theorem mem_entries_of_find? {r : Registry κ ν} {key : κ} {value : ν}
    (h : r.find? key = some value) : (key, value) ∈ r.entries := by
  obtain ⟨entries⟩ := r
  simp only [find?] at h ⊢
  induction entries with
  | nil => cases h
  | cons entry rest ih =>
    obtain ⟨k, v⟩ := entry
    rw [findIn] at h
    split at h
    · subst k; cases h; simp
    · exact List.mem_cons_of_mem _ (ih h)

theorem mem_values_of_find? {r : Registry κ ν} {key : κ} {value : ν}
    (h : r.find? key = some value) : value ∈ r.values :=
  List.mem_map.2 ⟨_, mem_entries_of_find? h, rfl⟩

/-- A value of a registry after an entry is the one entered or was there before. -/
theorem mem_values_insert {r : Registry κ ν} {key : κ} {value other : ν}
    (h : other ∈ (r.insert key value).values) : other = value ∨ other ∈ r.values := by
  obtain ⟨entries⟩ := r
  simp only [insert, values] at h ⊢
  induction entries with
  | nil => simpa [insertIn] using h
  | cons entry rest ih =>
    obtain ⟨k, v⟩ := entry
    rw [insertIn] at h
    split at h
    · rcases List.mem_cons.1 h with rfl | h
      · exact .inl rfl
      · exact .inr (List.mem_cons_of_mem _ h)
    · rcases List.mem_cons.1 h with rfl | h
      · exact .inr (by simp)
      · exact (ih h).imp_right (List.mem_cons_of_mem _)

theorem contains_iff {r : Registry κ ν} {key : κ} :
    r.contains key ↔ ∃ value, r.find? key = some value := by
  rw [contains, Option.isSome_iff_exists]

theorem mem_keys_iff {r : Registry κ ν} {key : κ} : key ∈ r.keys ↔ r.contains key := by
  obtain ⟨entries⟩ := r
  simp only [keys, contains, find?]
  induction entries with
  | nil => simp [findIn]
  | cons entry rest ih =>
    obtain ⟨k, v⟩ := entry
    rw [List.map_cons, List.mem_cons, findIn, ih]
    by_cases same : k = key
    · simp [same]
    · simp [same, Ne.symm same]

theorem notMem_keys {r : Registry κ ν} {key : κ} (h : r.find? key = none) : key ∉ r.keys := by
  rw [mem_keys_iff, contains, h]
  simp

/-- An entry is found if no other one has its key. -/
theorem find?_of_mem {r : Registry κ ν} (nodup : r.keys.Nodup) {key : κ} {value : ν}
    (h : (key, value) ∈ r.entries) : r.find? key = some value := by
  obtain ⟨entries⟩ := r
  simp only [keys, find?] at nodup h ⊢
  induction entries with
  | nil => cases h
  | cons entry rest ih =>
    obtain ⟨k, v⟩ := entry
    rw [List.map_cons, List.nodup_cons] at nodup
    rw [findIn]
    rcases List.mem_cons.1 h with same | h
    · cases same
      rw [if_pos rfl]
    · rw [if_neg fun same => ?_, ih nodup.2 h]
      subst same
      exact nodup.1 (List.mem_map.2 ⟨_, h, rfl⟩)

/-- What is entered under a new key is put last. -/
theorem entries_insert {r : Registry κ ν} {key : κ} (h : r.contains key = false) (value : ν) :
    (r.insert key value).entries = r.entries ++ [(key, value)] := by
  obtain ⟨entries⟩ := r
  simp only [contains, find?, insert] at h ⊢
  induction entries with
  | nil => rfl
  | cons entry rest ih =>
    obtain ⟨k, v⟩ := entry
    rw [findIn] at h
    split at h
    · cases h
    · rename_i other
      rw [insertIn, if_neg other, ih h]
      rfl

end Registry

namespace SymbolTable

variable {t t' : SymbolTable} {id other : SymbolId} {symbol : Symbol}

theorem mem_ids : id ∈ t.ids ↔ t.owns id := by
  obtain ⟨index⟩ := id
  simp only [ids, owns, List.mem_map, List.mem_range, SymbolId.mk.injEq, Bool.and_eq_true,
    decide_eq_true_eq]
  constructor
  · rintro ⟨i, hi, rfl⟩
    omega
  · intro h
    exact ⟨index - t.base, by omega, by omega⟩

theorem mem_of_get? (h : t.get? id = some symbol) : symbol ∈ t.symbols.toList := by
  unfold get? at h
  split at h
  · exact Array.mem_toList_iff.2 (Array.mem_of_getElem? h)
  · cases h

theorem owns_iff : t.owns id ↔ ∃ symbol, t.get? id = some symbol := by
  simp only [owns, Bool.and_eq_true, decide_eq_true_eq]
  simp only [get?, size]
  constructor
  · rintro ⟨ge, lt⟩
    rw [if_pos ge]
    exact ⟨_, Array.getElem?_eq_getElem (by omega)⟩
  · rintro ⟨symbol, h⟩
    split at h
    · have := (Array.getElem?_eq_some_iff.1 h).1
      omega
    · cases h

theorem owns_of_get? (h : t.get? id = some symbol) : t.owns id := owns_iff.2 ⟨symbol, h⟩

/-! ## Additions -/

/-- The symbol that an addition enters. -/
def fresh (t : SymbolTable) (kind : SymbolKind) (name : String) (parent : Option SymbolId) :
    Symbol where
  id := ⟨t.base + t.size⟩
  kind := kind
  name := name
  parent := parent
  qualifiedName := match parent.bind t.get? with
    | some above => above.qualifiedName ++ ":" ++ name
    | none => name

/-- A table with one more symbol. -/
def push (t : SymbolTable) (symbol : Symbol) : SymbolTable :=
  { t with symbols := t.symbols.push symbol }

/-- The number of the symbol that comes next. -/
def next (t : SymbolTable) : SymbolId := ⟨t.base + t.size⟩

theorem nextId_eq (t : SymbolTable) :
    t.nextId = if t.next.index < SymbolId.limit then .ok t.next else .error .symbolsExhausted := rfl

theorem add_eq (t : SymbolTable) (kind : SymbolKind) (name : String) (parent : Option SymbolId) :
    t.add kind name parent = if t.next.index < SymbolId.limit then
      .ok (t.next, t.push (t.fresh kind name parent)) else .error .symbolsExhausted := by
  rw [add, nextId_eq]
  split <;> rfl

@[simp] theorem base_push (t : SymbolTable) (symbol : Symbol) : (t.push symbol).base = t.base := rfl

@[simp] theorem size_push (t : SymbolTable) (symbol : Symbol) :
    (t.push symbol).size = t.size + 1 := by
  simp [push, size]

theorem get?_push (t : SymbolTable) (symbol : Symbol) (id : SymbolId) :
    (t.push symbol).get? id = if id = t.next then some symbol else t.get? id := by
  have hnext : id = t.next ↔ id.index = t.base + t.size := by
    cases id
    simp [next]
  simp only [get?, push, Array.getElem?_push, hnext]
  by_cases hb : t.base ≤ id.index
  · by_cases hid : id.index = t.base + t.size
    · have : t.base + t.size - t.base = t.symbols.size := by simp [size]
      simp [hid, this]
    · have hne : id.index - t.base ≠ t.symbols.size := by
        simp only [size] at hid
        omega
      simp [hb, hid, hne]
  · have hid : id.index ≠ t.base + t.size := by omega
    simp [hb, hid]

theorem get?_next (t : SymbolTable) : t.get? t.next = none := by
  cases h : t.get? t.next with
  | none => rfl
  | some symbol =>
    have := owns_of_get? h
    simp [owns, next] at this

/-- Every symbol carries the number that it has in the table. -/
def Numbered (t : SymbolTable) : Prop := ∀ ⦃id symbol⦄, t.get? id = some symbol → symbol.id = id

/-! ## Changes -/

@[simp] theorem base_update (t : SymbolTable) (id : SymbolId) (f : Symbol → Symbol) :
    (t.update id f).base = t.base := by
  unfold update
  split <;> rfl

@[simp] theorem size_update (t : SymbolTable) (id : SymbolId) (f : Symbol → Symbol) :
    (t.update id f).size = t.size := by
  unfold update
  split <;> simp [size]

@[simp] theorem declared_update (t : SymbolTable) (id : SymbolId) (f : Symbol → Symbol) :
    (t.update id f).declared = t.declared := by
  unfold update
  split <;> rfl

@[simp] theorem tables_update (t : SymbolTable) (id : SymbolId) (f : Symbol → Symbol) :
    (t.update id f).tables = t.tables := by
  unfold update
  split <;> rfl

@[simp] theorem scripts_update (t : SymbolTable) (id : SymbolId) (f : Symbol → Symbol) :
    (t.update id f).scripts = t.scripts := by
  unfold update
  split <;> rfl

theorem get?_update (t : SymbolTable) (id : SymbolId) (f : Symbol → Symbol) (other : SymbolId) :
    (t.update id f).get? other = if other = id then (t.get? other).map f else t.get? other := by
  unfold update
  by_cases hb : t.base ≤ id.index
  · rw [if_pos hb]
    simp only [get?, Array.getElem?_modify]
    by_cases ho : other = id
    · subst ho
      simp [hb]
    · have hne : other.index ≠ id.index := fun e => ho (by cases other; cases id; simp_all)
      by_cases hc : t.base ≤ other.index
      · have : id.index - t.base ≠ other.index - t.base := by omega
        simp [hc, ho, this]
      · simp [hc, ho]
  · rw [if_neg hb]
    split
    · subst other
      simp [get?, hb]
    · rfl

theorem Numbered.update (h : t.Numbered) {f : Symbol → Symbol}
    (kept : ∀ symbol, t.get? id = some symbol → (f symbol).id = symbol.id) :
    (t.update id f).Numbered := by
  intro other symbol hs
  rw [get?_update] at hs
  split at hs
  · subst other
    obtain ⟨old, known, rfl⟩ := Option.map_eq_some_iff.1 hs
    rw [kept old known, h known]
  · exact h hs

@[simp] theorem names_update (t : SymbolTable) (id : SymbolId) (f : Symbol → Symbol)
    (kind : TableKind) (container : NodeId) :
    (t.update id f).names kind container = t.names kind container := by
  simp [names, names?]

@[simp] theorem symbolOf_update (t : SymbolTable) (id : SymbolId) (f : Symbol → Symbol)
    (node : NodeId) : (t.update id f).symbolOf node = t.symbolOf node := by
  simp [symbolOf]

/-! ## Declarations and names -/

theorem get?_declare (t : SymbolTable) (node : NodeId) (id other : SymbolId) :
    (t.declare node id).get? other =
      if other = id then (t.get? other).map ({ · with declaration := some node })
      else t.get? other :=
  get?_update _ id _ other

theorem symbolOf_declare (t : SymbolTable) (node other : NodeId) (id : SymbolId) :
    (t.declare node id).symbolOf other = if node = other then some id else t.symbolOf other := by
  simp [declare, symbolOf]

/-- A table with one more symbol, which a node declares. -/
def create (t : SymbolTable) (kind : SymbolKind) (name : String) (parent : Option SymbolId)
    (node : NodeId) : SymbolTable :=
  (t.push (t.fresh kind name parent)).declare node t.next

section Create

variable (t : SymbolTable) (kind : SymbolKind) (name : String) (parent : Option SymbolId)
  (node : NodeId)

theorem get?_create (id : SymbolId) :
    (t.create kind name parent node).get? id =
      if id = t.next then some { t.fresh kind name parent with declaration := some node }
      else t.get? id := by
  rw [create, get?_declare, get?_push]
  split <;> rfl

variable {t} in
theorem Numbered.create (h : t.Numbered) : (t.create kind name parent node).Numbered := by
  intro id symbol hs
  rw [get?_create] at hs
  split at hs
  · cases hs
    rw [‹id = t.next›]
    rfl
  · exact h hs

@[simp] theorem base_create : (t.create kind name parent node).base = t.base := base_update _ _ _

@[simp] theorem size_create : (t.create kind name parent node).size = t.size + 1 :=
  (size_update _ _ _).trans (size_push t _)

@[simp] theorem names_create (table : TableKind) (container : NodeId) :
    (t.create kind name parent node).names table container = t.names table container :=
  names_update _ _ _ _ _

@[simp] theorem scripts_create : (t.create kind name parent node).scripts = t.scripts :=
  scripts_update _ _ _

theorem symbolOf_create (other : NodeId) :
    (t.create kind name parent node).symbolOf other =
      if node = other then some t.next else t.symbolOf other :=
  symbolOf_declare _ node other _

end Create

theorem names_enter (t : SymbolTable) (kind other : TableKind) (container place : NodeId)
    (name : String) (id : SymbolId) :
    (t.enter kind container name id).names other place =
      if (kind, container) = (other, place) then
        (t.names kind container).insert (Text.lowercase name) id
      else t.names other place := by
  simp only [enter, names, names?, Registry.find?_insert]
  split <;> rfl

end SymbolTable

end PapyrusAnalysis
