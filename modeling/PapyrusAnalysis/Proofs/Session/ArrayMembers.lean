import Mathlib.Data.List.Forall2
import PapyrusAnalysis.Proofs.Run
import PapyrusAnalysis.Proofs.Symbol.Table
import PapyrusAnalysis.Session.ArrayMembers

/-!
# The symbols of an array

The symbols of an array type can be written down at once: 27 symbols in a row, whose numbers are
counted from that of the array itself. Creating them appends this block to a table, or uses up the
numbers for symbols if there is no room for all of it. Two blocks for the same elements differ in
nothing but where they start.

## Main definitions

* `SymbolTable.extend`: a table with some more symbols.
* `ArrayMembers.block`: the symbols of an array.
-/

namespace PapyrusAnalysis

namespace SymbolTable

variable {t : SymbolTable}

/-- A table with some more symbols. -/
def extend (t : SymbolTable) (symbols : List Symbol) : SymbolTable :=
  { t with symbols := t.symbols ++ symbols.toArray }

@[simp] theorem base_extend (t : SymbolTable) (xs : List Symbol) :
    (t.extend xs).base = t.base := rfl

@[simp] theorem size_extend (t : SymbolTable) (xs : List Symbol) :
    (t.extend xs).size = t.size + xs.length := by
  simp [extend, size]

@[simp] theorem extend_nil (t : SymbolTable) : t.extend [] = t := by simp [extend]

theorem extend_push (t : SymbolTable) (xs : List Symbol) (symbol : Symbol) :
    { t.extend xs with symbols := (t.extend xs).symbols.push symbol } =
      t.extend (xs ++ [symbol]) := by
  simp [extend]

theorem get?_extend (t : SymbolTable) (xs : List Symbol) (i : Nat) :
    (t.extend xs).get? ⟨t.base + t.size + i⟩ = xs[i]? := by
  have inside : t.base + t.size + i - t.base = t.symbols.size + i := by rw [size]; omega
  change (if t.base ≤ t.base + t.size + i then
    (t.symbols ++ xs.toArray)[t.base + t.size + i - t.base]? else none) = _
  rw [if_pos (by omega), inside, Array.getElem?_append_right (Nat.le_add_right _ _),
    Nat.add_sub_cancel_left, List.getElem?_toArray]

theorem get?_extend_of_lt (t : SymbolTable) (xs : List Symbol) {id : SymbolId}
    (h : id.index < t.base + t.size) : (t.extend xs).get? id = t.get? id := by
  by_cases below : t.base ≤ id.index
  · have inside : id.index - t.base < t.symbols.size := by simp only [size] at h; omega
    simp [get?, extend, below, Array.getElem?_append_left inside]
  · simp [get?, extend, below]

/-- What is found in an extended table was there before, or is one of the new symbols. -/
theorem get?_extend_cases {xs : List Symbol} {id : SymbolId} {symbol : Symbol}
    (h : (t.extend xs).get? id = some symbol) :
    t.get? id = some symbol ∨ ∃ i, id = ⟨t.base + t.size + i⟩ ∧ xs[i]? = some symbol := by
  by_cases inside : id.index < t.base + t.size
  · exact .inl ((get?_extend_of_lt t xs inside).symm.trans h)
  · have split : id = ⟨t.base + t.size + (id.index - (t.base + t.size))⟩ := by
      cases id
      simp only at inside ⊢
      congr
      omega
    rw [split, get?_extend] at h
    exact .inr ⟨_, split, h⟩

/-- Symbols that carry the numbers from `first` on. -/
def Consecutive : Nat → List Symbol → Prop
  | _, [] => True
  | first, symbol :: rest => symbol.id = ⟨first⟩ ∧ Consecutive (first + 1) rest

theorem Consecutive.append {first : Nat} {xs ys : List Symbol} (h : Consecutive first xs)
    (h' : Consecutive (first + xs.length) ys) : Consecutive first (xs ++ ys) := by
  induction xs generalizing first with
  | nil => exact h'
  | cons x xs ih =>
    rw [List.length_cons, Nat.add_comm xs.length, ← Nat.add_assoc] at h'
    exact ⟨h.1, ih h.2 h'⟩

theorem Consecutive.id_eq {first i : Nat} {xs : List Symbol} {symbol : Symbol}
    (h : Consecutive first xs) (hi : xs[i]? = some symbol) : symbol.id = ⟨first + i⟩ := by
  induction xs generalizing first i with
  | nil => cases hi
  | cons x xs ih =>
    cases i with
    | zero =>
      cases hi
      exact h.1
    | succ i => rw [ih h.2 hi, Nat.add_assoc, Nat.add_comm 1]

/-- Symbols that go on where a table ends can be added to it. -/
theorem Numbered.extend (h : t.Numbered) {xs : List Symbol}
    (next : Consecutive (t.base + t.size) xs) : (t.extend xs).Numbered := by
  intro id symbol hs
  rcases get?_extend_cases hs with old | ⟨i, rfl, new⟩
  · exact h old
  · exact next.id_eq new

/-- Changing a symbol that was added changes what was added. -/
theorem update_extend (t : SymbolTable) (xs : List Symbol) (i : Nat) (f : Symbol → Symbol) :
    (t.extend xs).update ⟨t.base + t.size + i⟩ f = t.extend (xs.modify i f) := by
  have inside : t.base + t.size + i - t.base = t.symbols.size + i := by simp [size]; omega
  have below : (t.extend xs).base ≤ t.base + t.size + i := by simp only [base_extend]; omega
  rw [update, if_pos below]
  have same : (t.symbols ++ xs.toArray).modify (t.symbols.size + i) f =
      t.symbols ++ (xs.modify i f).toArray := by
    apply Array.ext_getElem?
    intro j
    rw [Array.getElem?_modify, Array.getElem?_append, Array.getElem?_append]
    grind
  simp only [base_extend, inside]
  simp [extend, same]

end SymbolTable

namespace ArrayMembers

variable {α β : Type} {t : SymbolTable} {before between after : List Symbol}

/-! ## Adding to a table -/

/-- A step goes on from symbols that were added to a table to more of them, if there is room. -/
def Adds (t : SymbolTable) (before : List Symbol) (x : Creation α) (a : α) (after : List Symbol) :
    Prop :=
  before.length ≤ after.length ∧ (t.base + t.size + before.length ≤ SymbolId.limit →
    x (t.extend before) = if t.base + t.size + after.length ≤ SymbolId.limit then
      .ok (a, t.extend after) else .error .symbolsExhausted)

theorem Adds.pure (a : α) (xs : List Symbol) : Adds t xs (Pure.pure a) a xs :=
  ⟨Nat.le_refl _, fun room => (if_pos room).symm⟩

theorem Adds.bind {x : Creation α} {a : α} {f : α → Creation β} {b : β}
    (h : Adds t before x a between) (next : Adds t between (f a) b after) :
    Adds t before (x >>= f) b after := by
  refine ⟨Nat.le_trans h.1 next.1, fun room => ?_⟩
  have first := h.2 room
  by_cases fits : t.base + t.size + between.length ≤ SymbolId.limit
  · rw [if_pos fits] at first
    rw [bind_ok first, next.2 fits]
  · have := next.1
    rw [if_neg fits] at first
    rw [bind_error first, if_neg (by omega)]

theorem Adds.change (i : Nat) (f : Symbol → Symbol) (xs : List Symbol) :
    Adds t xs (ArrayMembers.change ⟨t.base + t.size + i⟩ f) () (xs.modify i f) := by
  refine ⟨by simp, fun room => ?_⟩
  rw [List.length_modify, if_pos room]
  change Except.ok (_, (t.extend xs).update _ f) = _
  rw [SymbolTable.update_extend]

/-- A symbol as it is when it has just been added. -/
def added (id : SymbolId) (kind : SymbolKind) (name : String) (parent : Option SymbolId)
    (qualifiedName : String) : Symbol :=
  { id := id, kind := kind, name := name, parent := parent, qualifiedName := qualifiedName }

theorem Adds.addSymbol (kind : SymbolKind) (name : String) {parent : Option SymbolId}
    {xs : List Symbol} (above : Option Symbol) (h : parent.bind (t.extend xs).get? = above) :
    Adds t xs (ArrayMembers.addSymbol kind name parent) ⟨t.base + t.size + xs.length⟩
      (xs ++ [added ⟨t.base + t.size + xs.length⟩ kind name parent
        (above.elim name fun above => above.qualifiedName ++ ":" ++ name)]) := by
  refine ⟨by simp, fun room => ?_⟩
  have same : ArrayMembers.addSymbol kind name parent (t.extend xs) =
      (t.extend xs).add kind name parent := by
    unfold ArrayMembers.addSymbol
    cases ha : (t.extend xs).add kind name parent with
    | error e => exact (bind_ok (x := get) rfl).trans (bind_error (liftM_error ha _))
    | ok r => exact (bind_ok (x := get) rfl).trans (bind_ok (liftM_ok ha _))
  have next : (t.extend xs).base + (t.extend xs).size = t.base + t.size + xs.length := by
    simp only [SymbolTable.base_extend, SymbolTable.size_extend]; omega
  simp only [same, SymbolTable.add, SymbolTable.nextId, next, List.length_append,
    List.length_singleton, h]
  by_cases fits : t.base + t.size + xs.length < SymbolId.limit
  · rw [if_pos fits, if_pos (by omega)]
    simp only [← SymbolTable.extend_push]
    cases above <;> rfl
  · rw [if_neg fits, if_neg (by omega)]
    rfl

theorem modify_length (xs : List Symbol) (symbol : Symbol) (ys : List Symbol)
    (f : Symbol → Symbol) : (xs ++ symbol :: ys).modify xs.length f = xs ++ f symbol :: ys := by
  induction xs with
  | nil => rfl
  | cons x xs ih => simp [ih]

/-! ## The block of symbols -/

section Block

variable (element : String) (start : Nat)

/-- The symbol of a parameter, which is `place` after the array's. That of its function is `offset`
after the array's. -/
def parameterSymbol (offset : Nat) (function : String) (place : Nat) (slot : Slot) : Symbol where
  id := ⟨start + place⟩
  kind := .parameter
  name := slot.name
  parent := some ⟨start + offset⟩
  qualifiedName := arrayName element ++ ":" ++ function ++ ":" ++ slot.name
  valueType := some ⟨slot.type.nameIn element, false⟩
  defaultValue := slot.default.map .int
  traits := ∅ ∪ .only .optional slot.default.isSome

/-- The symbols of the parameters of a function one after another. -/
def parameterSymbols (offset : Nat) (function : String) : Nat → List Slot → List Symbol
  | _, [] => []
  | place, slot :: rest =>
    parameterSymbol element start offset function place slot ::
      parameterSymbols offset function (place + 1) rest

def functionSymbol (offset : Nat) (signature : Signature) : Symbol where
  id := ⟨start + offset⟩
  kind := .function
  name := signature.name
  parent := some ⟨start⟩
  qualifiedName := arrayName element ++ ":" ++ signature.name
  parameters := (List.range' (offset + 1) signature.slots.length).map fun i => ⟨start + i⟩
  valueType := signature.returnType.map (⟨·, false⟩)
  traits := ∅ ∪ {.native}

/-- The symbols of a function and its parameters. -/
def functionBlock (offset : Nat) (signature : Signature) : List Symbol :=
  functionSymbol element start offset signature ::
    parameterSymbols element start offset signature.name (offset + 1) signature.slots

/-- The symbols of some functions one after another. -/
def functionBlocks : Nat → List Signature → List Symbol
  | _, [] => []
  | offset, signature :: rest =>
    functionBlock element start offset signature ++
      functionBlocks (offset + 1 + signature.slots.length) rest

/-- Where the symbols of some functions are. -/
def offsets : Nat → List Signature → List Nat
  | _, [] => []
  | offset, signature :: rest =>
    offset :: offsets (offset + 1 + signature.slots.length) rest

def lengthSymbol : Symbol where
  id := ⟨start + 26⟩
  kind := .property
  name := "Length"
  parent := some ⟨start⟩
  qualifiedName := arrayName element ++ ":" ++ "Length"
  valueType := some ⟨"int", false⟩
  traits := ∅ ∪ {.auto, .autoReadOnly}

def arraySymbol : Symbol where
  id := ⟨start⟩
  kind := .script
  name := arrayName element
  members := (offsets 1 functions ++ [26]).map fun i => ⟨start + i⟩
  traits := ∅ ∪ {.generatedArray}

/-- The symbols of an array in the order of their numbers. -/
def block : List Symbol :=
  arraySymbol element start :: (functionBlocks element start 1 functions ++
    [lengthSymbol element start])

end Block

@[simp] theorem length_parameterSymbols (element : String) (start offset : Nat) (function : String)
    (place : Nat) (slots : List Slot) :
    (parameterSymbols element start offset function place slots).length = slots.length := by
  induction slots generalizing place with
  | nil => rfl
  | cons slot slots ih => rw [parameterSymbols, List.length_cons, ih, List.length_cons]

theorem length_block (element : String) (start : Nat) : (block element start).length = 27 := by
  simp [block, functionBlocks, functionBlock, functions]

theorem mem_parameterSymbols {element : String} {start offset place : Nat} {function : String}
    {slots : List Slot} {symbol : Symbol}
    (h : symbol ∈ parameterSymbols element start offset function place slots) :
    ∃ place, ∃ slot ∈ slots, symbol = parameterSymbol element start offset function place slot := by
  induction slots generalizing place with
  | nil => cases h
  | cons slot slots ih =>
    rcases List.mem_cons.1 h with rfl | h
    · exact ⟨place, slot, List.mem_cons_self, rfl⟩
    · obtain ⟨place, other, ho, rfl⟩ := ih h
      exact ⟨place, other, List.mem_cons_of_mem _ ho, rfl⟩

theorem mem_functionBlocks {element : String} {start offset : Nat} {signatures : List Signature}
    {symbol : Symbol} (h : symbol ∈ functionBlocks element start offset signatures) :
    symbol.declaration = none ∧ (symbol.kind = .function ∨ symbol.kind = .parameter) := by
  induction signatures generalizing offset with
  | nil => cases h
  | cons signature rest ih =>
    simp only [functionBlocks, functionBlock, List.cons_append, List.mem_cons, List.mem_append] at h
    rcases h with rfl | h | h
    · exact ⟨rfl, .inl rfl⟩
    · obtain ⟨place, slot, -, rfl⟩ := mem_parameterSymbols h
      exact ⟨rfl, .inr rfl⟩
    · exact ih h

/-! ### Numbers -/

theorem consecutive_parameterSymbols (element : String) (start offset : Nat) (function : String)
    (place : Nat) (slots : List Slot) :
    SymbolTable.Consecutive (start + place)
      (parameterSymbols element start offset function place slots) := by
  induction slots generalizing place with
  | nil => trivial
  | cons slot slots ih => exact ⟨rfl, ih (place + 1)⟩

theorem consecutive_functionBlocks (element : String) (start offset : Nat)
    (signatures : List Signature) :
    SymbolTable.Consecutive (start + offset) (functionBlocks element start offset signatures) := by
  induction signatures generalizing offset with
  | nil => trivial
  | cons signature rest ih =>
    have slots := consecutive_parameterSymbols element start offset signature.name (offset + 1)
      signature.slots
    refine .append ⟨rfl, slots⟩ ?_
    have next : start + offset + (functionBlock element start offset signature).length =
        start + (offset + 1 + signature.slots.length) := by
      rw [functionBlock, List.length_cons, length_parameterSymbols]
      omega
    exact next ▸ ih (offset + 1 + signature.slots.length)

/-- The symbols of a block are numbered from that of the array on. -/
theorem consecutive_block (element : String) (start : Nat) :
    SymbolTable.Consecutive start (block element start) := by
  refine ⟨rfl, (consecutive_functionBlocks element start 1 functions).append ?_⟩
  simp [functionBlocks, functionBlock, functions, SymbolTable.Consecutive, lengthSymbol]

theorem isGeneratedArray_arraySymbol (element : String) (start : Nat) :
    (arraySymbol element start).isGeneratedArray = true := by
  change (∅ ∪ {.generatedArray} : FlagSet Trait).has .generatedArray = true
  decide

/-- The symbols of a block have no declarations, and the only script among them is the array. -/
theorem mem_block {element : String} {start : Nat} {symbol : Symbol}
    (h : symbol ∈ block element start) : symbol.declaration = none ∧ symbol.kind ≠ .struct ∧
      (symbol.kind = .script → symbol.isGeneratedArray) := by
  simp only [block, List.mem_cons, List.mem_append, List.not_mem_nil, or_false] at h
  rcases h with rfl | h | rfl
  · exact ⟨rfl, (by intro h; cases h), fun _ => isGeneratedArray_arraySymbol element start⟩
  · obtain ⟨bare, kind⟩ := mem_functionBlocks h
    rcases kind with kind | kind <;> simp [bare, kind]
  · exact ⟨rfl, (by intro h; cases h), (by intro h; cases h)⟩

/-- Where the symbol of each function is. -/
theorem getElem?_functionBlocks (element : String) (start : Nat) {offset i : Nat}
    {signatures : List Signature} (h : i ∈ offsets offset signatures) :
    offset ≤ i ∧ ∃ signature ∈ signatures,
      (functionBlocks element start offset signatures)[i - offset]? =
        some (functionSymbol element start i signature) := by
  induction signatures generalizing offset with
  | nil => cases h
  | cons signature rest ih =>
    rcases List.mem_cons.1 h with rfl | h
    · exact ⟨Nat.le_refl i, signature, by simp, by simp [functionBlocks, functionBlock]⟩
    · obtain ⟨beyond, other, ho, found⟩ := ih h
      refine ⟨by omega, other, by simp [ho], ?_⟩
      have length : (functionBlock element start offset signature).length =
          1 + signature.slots.length := by
        simp [functionBlock, Nat.add_comm]
      rw [functionBlocks, List.getElem?_append_right (by omega), length, ← found]
      congr 1
      omega

/-- The members of an array are its functions and its length. -/
theorem getElem?_block (element : String) (start : Nat) {i : Nat}
    (h : i ∈ offsets 1 functions ++ [26]) :
    (∃ signature ∈ functions, (block element start)[i]? =
      some (functionSymbol element start i signature)) ∨
      (block element start)[i]? = some (lengthSymbol element start) := by
  rcases List.mem_append.1 h with h | h
  · obtain ⟨beyond, signature, hm, found⟩ := getElem?_functionBlocks element start h
    refine .inl ⟨signature, hm, ?_⟩
    obtain ⟨inside, -⟩ := List.getElem?_eq_some_iff.1 found
    rw [block, show i = i - 1 + 1 by omega, List.getElem?_cons_succ,
      List.getElem?_append_left inside, found, Nat.sub_add_cancel beyond]
  · cases List.mem_singleton.1 h
    exact .inr rfl

/-! ## Creating the block -/

variable {element : String} {xs : List Symbol}

theorem adds_parameter {offset : Nat} {function : String} {above : Symbol}
    (h : xs[offset]? = some above)
    (hq : above.qualifiedName = arrayName element ++ ":" ++ function) (slot : Slot) :
    Adds t xs (createParameter element ⟨t.base + t.size + offset⟩ slot)
      ⟨t.base + t.size + xs.length⟩
      (xs ++ [parameterSymbol element (t.base + t.size) offset function xs.length slot]) := by
  unfold createParameter
  refine (Adds.addSymbol .parameter slot.name (some above) ?_).bind
    ((Adds.change xs.length _ _).bind ?_)
  · rw [Option.bind_some, SymbolTable.get?_extend, h]
  · rw [modify_length]
    simp only [Option.elim, hq]
    exact Adds.pure _ _

theorem adds_parameters {offset : Nat} {function : String} (above : Symbol)
    (h : xs[offset]? = some above)
    (hq : above.qualifiedName = arrayName element ++ ":" ++ function) (slots : List Slot) :
    Adds t xs (slots.mapM (createParameter element ⟨t.base + t.size + offset⟩))
      ((List.range' xs.length slots.length).map fun i => ⟨t.base + t.size + i⟩)
      (xs ++ parameterSymbols element (t.base + t.size) offset function xs.length slots) := by
  induction slots generalizing xs with
  | nil => simpa [parameterSymbols] using Adds.pure [] xs
  | cons slot slots ih =>
    have later : (xs ++ [parameterSymbol element (t.base + t.size) offset function xs.length
        slot])[offset]? = some above := by
      rw [List.getElem?_append_left (List.getElem?_eq_some_iff.1 h).1, h]
    rw [List.mapM_cons]
    refine (adds_parameter h hq slot).bind ((ih later).bind ?_)
    simpa [List.range'_succ, parameterSymbols] using Adds.pure _ _

theorem adds_function (above : Symbol) (h : xs[0]? = some above)
    (hq : above.qualifiedName = arrayName element) (signature : Signature) :
    Adds t xs (createFunction element ⟨t.base + t.size⟩ signature) ⟨t.base + t.size + xs.length⟩
      (xs ++ functionBlock element (t.base + t.size) xs.length signature) := by
  unfold createFunction
  refine (Adds.addSymbol .function signature.name (some above) ?_).bind
    ((adds_parameters (added ⟨t.base + t.size + xs.length⟩ .function signature.name
      (some ⟨t.base + t.size⟩) (arrayName element ++ ":" ++ signature.name)) ?_ rfl
      signature.slots).bind
      ((Adds.change xs.length _ _).bind ?_))
  · exact (SymbolTable.get?_extend t xs 0).trans h
  · simp [hq]
  · rw [List.append_assoc, List.singleton_append, modify_length]
    simp only [Option.elim, hq, List.length_append, List.length_singleton]
    exact Adds.pure _ _

theorem adds_functions (above : Symbol) (h : xs[0]? = some above)
    (hq : above.qualifiedName = arrayName element) (signatures : List Signature) :
    Adds t xs (signatures.mapM (createFunction element ⟨t.base + t.size⟩))
      ((offsets xs.length signatures).map fun i => ⟨t.base + t.size + i⟩)
      (xs ++ functionBlocks element (t.base + t.size) xs.length signatures) := by
  induction signatures generalizing xs with
  | nil => simpa [offsets, functionBlocks] using Adds.pure [] xs
  | cons signature rest ih =>
    have later : (xs ++ functionBlock element (t.base + t.size) xs.length signature)[0]?
        = some above := by
      rw [List.getElem?_append_left (List.getElem?_eq_some_iff.1 h).1, h]
    have length : (xs ++ functionBlock element (t.base + t.size) xs.length signature).length =
        xs.length + 1 + signature.slots.length := by
      simp only [List.length_append, functionBlock, List.length_cons, length_parameterSymbols]
      omega
    rw [List.mapM_cons]
    refine (adds_function above h hq signature).bind ((ih later).bind ?_)
    simpa [offsets, functionBlocks, length] using Adds.pure _ _

theorem adds_length (above : Symbol) (h : xs[0]? = some above)
    (hq : above.qualifiedName = arrayName element) (last : xs.length = 26) :
    Adds t xs (createLength ⟨t.base + t.size⟩) ⟨t.base + t.size + xs.length⟩
      (xs ++ [lengthSymbol element (t.base + t.size)]) := by
  unfold createLength
  refine (Adds.addSymbol .property "Length" (some above) ?_).bind
    ((Adds.change xs.length _ _).bind ?_)
  · exact (SymbolTable.get?_extend t xs 0).trans h
  · rw [modify_length]
    simp only [Option.elim, hq, last]
    exact Adds.pure _ _

/-- Creating the symbols of an array appends its block, if there is room for it. -/
theorem create_eq (element : String) (room : t.base + t.size ≤ SymbolId.limit) :
    create element t = if t.base + t.size + 27 ≤ SymbolId.limit then
      .ok (⟨t.base + t.size⟩, t.extend (block element (t.base + t.size)))
      else .error .symbolsExhausted := by
  have adds : Adds t [] (create element) ⟨t.base + t.size⟩ (block element (t.base + t.size)) := by
    let array := added ⟨t.base + t.size⟩ .script (arrayName element) none (arrayName element)
    unfold create
    refine (Adds.addSymbol .script (arrayName element) none rfl).bind
      ((adds_functions array rfl rfl functions).bind ((adds_length array rfl rfl rfl).bind
        ((Adds.change 0 _ _).bind ?_)))
    exact Adds.pure _ _
  simpa [length_block] using adds.2 (by simpa using room)

end ArrayMembers

end PapyrusAnalysis
