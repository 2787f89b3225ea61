import PapyrusAnalysis.Proofs.Session.Canonical
import PapyrusAnalysis.Proofs.Session.Termination

/-!
# Validation does not depend on what was validated before

Sessions in which scripts and structs have distinct names correspond: types that stand for the same
thing do, and so do the symbols of the codebase, those of the intrinsic types and those at the same
place of the blocks of two arrays. A new session therefore reports the same as one that has been in
use. The one in use has at least the arrays of the new one, so it is the one to run out of numbers
for symbols first.

## Main definitions

* `Correspondence.renumbering`: sessions that differ in the numbers of types and symbols.
-/

namespace PapyrusAnalysis

namespace ArrayMembers

variable {Q : SymbolId → SymbolId → Prop} {start start' : Nat}

theorem parameterSymbols_alike (element : String) (offset : Nat) (function : String) {place : Nat}
    (slots : List Slot) (hQ : ∀ i, i < place + slots.length → Q ⟨start + i⟩ ⟨start' + i⟩) :
    List.Forall₂ (Symbol.Alike Q) (parameterSymbols element start offset function place slots)
      (parameterSymbols element start' offset function place slots) := by
  induction slots generalizing place with
  | nil => exact .nil
  | cons slot slots ih =>
    rw [List.length_cons] at hQ
    refine .cons ⟨hQ place (by omega), rfl, rfl, rfl, rfl, rfl, rfl, rfl, rfl, .nil, .nil, .nil⟩
      (ih fun i hi => hQ i (by omega))

theorem functionBlock_alike (element : String) (offset : Nat) (signature : Signature)
    (hQ : ∀ i, i < offset + 1 + signature.slots.length → Q ⟨start + i⟩ ⟨start' + i⟩) :
    List.Forall₂ (Symbol.Alike Q) (functionBlock element start offset signature)
      (functionBlock element start' offset signature) := by
  refine .cons ⟨hQ offset (by omega), rfl, rfl, rfl, rfl, rfl, rfl, rfl, rfl, .nil, ?_, .nil⟩
    (parameterSymbols_alike element offset signature.name signature.slots hQ)
  simp only [functionSymbol, List.forall₂_map_left_iff, List.forall₂_map_right_iff,
    List.forall₂_same]
  intro i hi
  have := List.mem_range'_1.1 hi
  exact hQ i (by omega)

theorem functionBlocks_alike (element : String) (signatures : List Signature) {offset limit : Nat}
    (fits : offset + (functionBlocks element start offset signatures).length ≤ limit)
    (hQ : ∀ i, i < limit → Q ⟨start + i⟩ ⟨start' + i⟩) :
    List.Forall₂ (Symbol.Alike Q) (functionBlocks element start offset signatures)
      (functionBlocks element start' offset signatures) := by
  induction signatures generalizing offset with
  | nil => exact .nil
  | cons signature rest ih =>
    have length : (functionBlock element start offset signature).length =
        1 + signature.slots.length := by
      simp only [functionBlock, List.length_cons, length_parameterSymbols]
      omega
    simp only [functionBlocks, List.length_append, length] at fits
    refine List.rel_append (functionBlock_alike element offset signature fun i hi => ?_) (ih ?_)
    · exact hQ i (by omega)
    · omega

/-- The blocks of two arrays with the same elements differ in numbers only. -/
theorem block_alike (element : String) (hQ : ∀ i, i < 27 → Q ⟨start + i⟩ ⟨start' + i⟩) :
    List.Forall₂ (Symbol.Alike Q) (block element start) (block element start') := by
  have length : (functionBlocks element start 1 functions).length = 25 := by
    simp [functionBlocks, functionBlock, functions]
  have inside : ∀ i ∈ offsets 1 functions ++ [26], i < 27 := by decide
  refine .cons ⟨hQ 0 (by decide), rfl, rfl, rfl, rfl, rfl, rfl, rfl, rfl, ?_, .nil, .nil⟩ ?_
  · simp only [arraySymbol, List.forall₂_map_left_iff, List.forall₂_map_right_iff,
      List.forall₂_same]
    exact fun i hi => hQ i (inside i hi)
  · refine List.rel_append (functionBlocks_alike element functions ?_ hQ) ?_
    · omega
    · exact .cons ⟨hQ 26 (by decide), rfl, rfl, rfl, rfl, rfl, rfl, rfl, rfl, .nil, .nil, .nil⟩
        .nil

/-- The only script in the block of an array is the array. -/
theorem block_cases {element : String} {start i : Nat} {symbol : Symbol}
    (h : (block element start)[i]? = some symbol) :
    i = 0 ∧ symbol = arraySymbol element start ∨ symbol.kind ≠ .script := by
  cases i with
  | zero => exact .inl ⟨rfl, (Option.some.inj h).symm⟩
  | succ i =>
    right
    have member :
        symbol ∈ functionBlocks element start 1 functions ++ [lengthSymbol element start] :=
      List.mem_of_getElem? h
    rcases List.mem_append.1 member with member | member
    · rcases (mem_functionBlocks member).2 with kind | kind <;> simp [kind]
    · rw [List.mem_singleton.1 member]
      intro script
      cases script

end ArrayMembers

namespace Correspondence

open Session

variable {c : Codebase} {s t : Session}

/-- Symbols of two sessions at the same place: one that both sessions share, or the symbols at the
same place in the blocks of two arrays with the same elements. -/
inductive SymbolsAt (c : Codebase) (s t : Session) : SymbolId → SymbolId → Prop where
  | shared {id : SymbolId} (h : id.index < c.symbols.base + c.symbols.size + 7) :
      SymbolsAt c s t id id
  | block {element : String} {start start' i : Nat} {type type' : TypeId} (h : i < 27)
      (left : s.types.get? type = some (arrayInfo element start type))
      (right : t.types.get? type' = some (arrayInfo element start' type')) :
      SymbolsAt c s t ⟨start + i⟩ ⟨start' + i⟩

/-- Sessions that differ in the numbers of types and symbols. The second one has all the arrays of
the first one. -/
def renumbering (c : Codebase) : Correspondence where
  related s t := s.Canonical c ∧ t.Canonical c ∧ s.pending = t.pending ∧
    s.arrays.keys ⊆ t.arrays.keys
  types s t a b := ∃ key, s.TypeAt c key a ∧ t.TypeAt c key b
  symbols := SymbolsAt c
  tolerates e := e = .symbolsExhausted → c.Crowded

theorem symbolsAt_own {id : SymbolId} (h : c.symbols.owns id) : SymbolsAt c s t id id := by
  simp only [SymbolTable.owns, Bool.and_eq_true, decide_eq_true_eq] at h
  exact .shared (by omega)

/-- Types that stand for the same thing look alike. -/
theorem renumbering_info (hs : s.Canonical c) (ht : t.Canonical c) {key : TypeKey}
    {a b : TypeId} (ha : s.TypeAt c key a) (hb : t.TypeAt c key b) :
    ∃ x y, s.types.get? a = some x ∧ t.types.get? b = some y ∧
      (renumbering c).typesAlike s t x y := by
  cases key with
  | intrinsic kind =>
    obtain rfl : a = kind.typeId := ha
    obtain rfl : b = kind.typeId := hb
    refine ⟨_, _, hs.initial.types (types_initial c kind), ht.initial.types (types_initial c kind),
      rfl, rfl, .shared ?_, .intrinsic kind⟩
    cases kind <;> simp [Intrinsic.typeId]
  | script script =>
    obtain ⟨symbol, hsymbol, hx⟩ := hs.info_script ha
    obtain ⟨symbol', hsymbol', hy⟩ := ht.info_script hb
    cases hsymbol.symm.trans hsymbol'
    refine ⟨_, _, hx, hy, rfl, rfl, symbolsAt_own (SymbolTable.owns_of_get? hsymbol), .script ?_⟩
    intro name
    refine (enterAll_alike nameKey (c.structs symbol) (n := a.index + 1) (m := b.index + 1) (k := 0)
      .none).imp ?_
    rintro _ _ ⟨i, inside, rfl, rfl⟩
    exact ⟨.struct script i, ⟨a, symbol, ha, hsymbol, by omega, rfl⟩,
      b, symbol, hb, hsymbol, by omega, rfl⟩
  | struct script place =>
    obtain ⟨type, symbol, at', hsymbol, inside, rfl⟩ := ha
    obtain ⟨type', symbol', at'', hsymbol', inside', rfl⟩ := hb
    cases hsymbol.symm.trans hsymbol'
    refine ⟨_, _, hs.info_struct at' hsymbol inside, ht.info_struct at'' hsymbol inside', rfl, rfl,
      ?_, .struct type type'⟩
    have entry := Codebase.mem_structs (List.getElem_mem inside)
    exact symbolsAt_own (SymbolTable.owns_of_get? entry.2.1)
  | array element =>
    obtain ⟨start, hx⟩ := ha
    obtain ⟨start', hy⟩ := hb
    exact ⟨_, _, hx, hy, rfl, rfl, .block (i := 0) (by omega) hx hy, .array element⟩

/-- A symbol of an array is found at its place in the block of the array. -/
theorem symbol?_block (h : s.Canonical c) {element : String} {start i : Nat} {type : TypeId}
    (hi : s.types.get? type = some (arrayInfo element start type)) (inside : i < 27) :
    ∃ symbol, (ArrayMembers.block element start)[i]? = some symbol ∧
      s.symbol? c ⟨start + i⟩ = some symbol := by
  have length := ArrayMembers.length_block element start
  have placed : (ArrayMembers.block element start)[i]? =
      some ((ArrayMembers.block element start)[i]) := List.getElem?_eq_getElem (by omega)
  obtain ⟨-, -, start', same, block⟩ := h.arrayTypes hi rfl
  obtain rfl : start = start' := congrArg (fun info => info.symbol.index) same
  have found := block placed
  refine ⟨_, placed, ?_⟩
  rw [symbol?_synthetic s, found]
  have owned := SymbolTable.owns_of_get? found
  simp only [SymbolTable.owns, Bool.and_eq_true, decide_eq_true_eq] at owned
  exact not_owns_of_base h.sound.base owned.1

/-- A symbol that is shared and not one of the codebase is that of an intrinsic type. -/
theorem symbol?_shared (h : s.Canonical c) {id : SymbolId} (foreign : ¬ c.symbols.owns id)
    (inside : id.index < c.symbols.base + c.symbols.size + 7) :
    s.symbol? c id = (initial c).synthetic.get? id := by
  rw [symbol?_synthetic s foreign]
  have base : (initial c).synthetic.base = c.symbols.base + c.symbols.size := rfl
  cases found : (initial c).synthetic.get? id with
  | some symbol => exact h.initial.synthetic found
  | none =>
    have below : ¬ s.synthetic.base ≤ id.index := by
      intro above
      rw [h.sound.base] at above
      have size : (initial c).synthetic.symbols.size = 7 := rfl
      rw [SymbolTable.get?, if_pos (base ▸ above), Array.getElem?_eq_none_iff, base, size] at found
      omega
    rw [SymbolTable.get?, if_neg below]

/-- The symbols of a new session are those of the intrinsic types. -/
theorem get?_initial {id : SymbolId} {symbol : Symbol}
    (h : (initial c).synthetic.get? id = some symbol) :
    ∃ kind, symbol = intrinsicSymbol kind id := by
  rcases SymbolTable.get?_extend_cases h with old | ⟨i, rfl, new⟩
  · simp [SymbolTable.get?, SymbolTable.startingAt] at old
  · rw [getElem?_intrinsicSymbols] at new
    obtain ⟨kind, -, rfl⟩ := Option.map_eq_some_iff.1 new
    exact ⟨kind, rfl⟩

/-- Symbols at the same place look alike. -/
theorem renumbering_symbol (hc : c.Sound) (hs : s.Canonical c) (ht : t.Canonical c)
    {a b : SymbolId} (hab : SymbolsAt c s t a b) :
    Option.Rel ((renumbering c).symbolsAlike s t) (s.symbol? c a) (t.symbol? c b) := by
  cases hab with
  | shared inside =>
    by_cases owned : c.symbols.owns a
    · rw [symbol?_own s owned, symbol?_own t owned]
      cases hsymbol : c.symbols.get? a with
      | none => exact .none
      | some symbol =>
        have same : symbol.id = a := hc.symbols.numbered hsymbol
        refine .some (.refl (same ▸ symbolsAt_own owned) fun id hid => symbolsAt_own ?_)
        exact (hc.symbols.fits hsymbol).owned id (by simpa using hid)
    · rw [symbol?_shared hs owned inside, symbol?_shared ht owned inside]
      cases hsymbol : (initial c).synthetic.get? a with
      | none => exact .none
      | some symbol =>
        obtain ⟨kind, rfl⟩ := get?_initial hsymbol
        exact .some (.refl (.shared inside) fun _ hid => by cases hid)
  | @block element start start' i _ _ inside left right =>
    obtain ⟨x, hx, found⟩ := symbol?_block hs left inside
    obtain ⟨y, hy, found'⟩ := symbol?_block ht right inside
    rw [found, found']
    have alike := ArrayMembers.block_alike (Q := SymbolsAt c s t) element
      fun i hi => .block hi left right
    obtain ⟨inside, rfl⟩ := List.getElem?_eq_some_iff.1 hx
    obtain ⟨inside', rfl⟩ := List.getElem?_eq_some_iff.1 hy
    exact .some (alike.get inside inside')

/-- Something that is no script has no type. -/
theorem scriptType_none {id : SymbolId} (h : ∀ symbol, s.symbol? c id = some symbol →
    symbol.kind ≠ .script) : Query.scriptType c id s = .ok (none, s) := by
  rw [Query.scriptType_eq]
  cases hs : s.symbol? c id with
  | none => rfl
  | some symbol => simp [h symbol hs]

theorem scriptType_array (h : s.Canonical c) {element : String} {start : Nat} {type : TypeId}
    (hi : s.types.get? type = some (arrayInfo element start type)) :
    Query.scriptType c ⟨start + 0⟩ s = .ok (some type, s) := by
  obtain ⟨symbol, placed, found⟩ := symbol?_block h hi (i := 0) (by omega)
  obtain rfl : ArrayMembers.arraySymbol element start = symbol := Option.some.inj placed
  have named : s.arraySymbols.find? ⟨start + 0⟩ = some type := (h.arrayTypes hi rfl).2.1
  rw [Query.scriptType_eq, found]
  dsimp only
  rw [if_neg (by simp [ArrayMembers.arraySymbol]),
    if_pos (ArrayMembers.isGeneratedArray_arraySymbol element start), named]

/-- Symbols at the same place lead to types that stand for the same thing. -/
theorem renumbering_scriptType (hc : c.Sound) (unambiguous : c.Unambiguous)
    (rel : (renumbering c).related s t) {a b : SymbolId} (hab : SymbolsAt c s t a b) :
    Coupled (renumbering c).coupling s t (Query.scriptType c a) (Query.scriptType c b)
      ((renumbering c).Found) := by
  obtain ⟨hs, ht, pending, arrays⟩ := rel
  have none : Query.scriptType c a s = .ok (none, s) → Query.scriptType c b t = .ok (none, t) →
      Coupled (renumbering c).coupling s t (Query.scriptType c a) (Query.scriptType c b)
        ((renumbering c).Found) := fun left right =>
    .done left right (.refl s) (.refl t) ⟨hs, ht, pending, arrays⟩ .none
  cases hab with
  | shared inside =>
    by_cases owned : c.symbols.owns a
    · have own (s : Session) : s.symbol? c a = c.symbols.get? a := symbol?_own s owned
      by_cases script : ∃ symbol, c.symbols.get? a = some symbol ∧ symbol.kind = .script
      · obtain ⟨symbol, hsymbol, kind⟩ := script
        cases generated : symbol.isGeneratedArray with
        | true =>
          -- A script of the codebase never is an array.
          have missing {s : Session} (h : s.Sound c) : s.arraySymbols.find? a = Option.none := by
            cases hfind : s.arraySymbols.find? a with
            | none => rfl
            | some type => exact absurd owned (h.arraySymbols hfind).2
          have run {s : Session} (h : s.Sound c) :
              Query.scriptType c a s = .ok (Option.none, s) := by
            rw [Query.scriptType_eq, own, hsymbol]
            simp [kind, generated, missing h]
          exact none (run hs.sound) (run ht.sound)
        | false =>
          obtain ⟨x, s', left, gs, hs', sameS, at'⟩ :=
            hs.scriptType hc unambiguous hsymbol kind generated
          obtain ⟨y, t', right, gt, ht', sameT, at''⟩ :=
            ht.scriptType hc unambiguous hsymbol kind generated
          refine .done left right gs gt ⟨hs', ht', ?_, by rwa [sameS, sameT]⟩
            (.some ⟨.script a, at', at''⟩)
          rw [gs.pending, gt.pending, pending]
      · have other (s : Session) : ∀ symbol, s.symbol? c a = some symbol →
            symbol.kind ≠ .script := fun symbol h kind => script ⟨symbol, own s ▸ h, kind⟩
        exact none (scriptType_none (other s)) (scriptType_none (other t))
    · have other {s : Session} (h : s.Canonical c) : ∀ symbol, s.symbol? c a = some symbol →
          symbol.kind ≠ .script := by
        intro symbol hsymbol
        rw [symbol?_shared h owned inside] at hsymbol
        obtain ⟨kind, rfl⟩ := get?_initial hsymbol
        intro script
        cases script
      exact none (scriptType_none (other hs)) (scriptType_none (other ht))
  | @block element start start' i _ _ inside left right =>
    cases i with
    | zero =>
      exact .done (scriptType_array hs left) (scriptType_array ht right) (.refl s) (.refl t)
        ⟨hs, ht, pending, arrays⟩ (.some ⟨.array element, ⟨start, left⟩, start', right⟩)
    | succ i =>
      have other {s : Session} (h : s.Canonical c) {start : Nat} {type : TypeId}
          (hi : s.types.get? type = some (arrayInfo element start type)) :
          ∀ symbol, s.symbol? c ⟨start + (i + 1)⟩ = some symbol → symbol.kind ≠ .script := by
        intro symbol hsymbol
        obtain ⟨symbol', placed, found⟩ := symbol?_block h hi inside
        cases hsymbol.symm.trans found
        exact (ArrayMembers.block_cases placed).resolve_left fun h => by cases h.1
      exact none (scriptType_none (other hs left)) (scriptType_none (other ht right))

/-- The name of a type that arrays can have elements of is spelled as in its declaration. -/
theorem isElementName (h : s.Sound c) {type : TypeId} {info : TypeInfo}
    (element : s.IsElement type) (hi : s.types.get? type = some info) :
    c.IsElementName info.qualifiedName := by
  obtain ⟨info', hi', shape⟩ := element
  cases hi.symm.trans hi'
  rcases shape with intrinsic | ⟨declared, foreign⟩
  · unfold TypeInfo.isIntrinsic at intrinsic
    split at intrinsic
    · rename_i kind hf
      exact .inl ⟨kind, (h.infos hi).intrinsic hf⟩
    · cases intrinsic
  · rcases Bool.or_eq_true_iff.1 declared with script | struct
    · obtain ⟨symbol, hs, kind, -, hq⟩ := (h.infos hi).script script
      exact .inr ⟨foreign, _, symbol, hs, by simp [Codebase.namesType, kind], hq⟩
    · obtain ⟨symbol, hs, kind, -, hq⟩ := (h.infos hi).struct struct
      exact .inr ⟨foreign, _, symbol, hs, by simp [Codebase.namesType, kind], hq⟩

/-- A session with no more arrays has at least as much room. -/
theorem nextSymbol_le (hs : s.Sound c) (ht : t.Sound c) {keys : List String} {n : Nat}
    (nodup : keys.Nodup) (fewer : keys ⊆ t.arrays.keys)
    (length : keys.length = s.arrays.keys.length + n) :
    s.nextSymbol + 27 * n ≤ t.nextSymbol := by
  have le := (List.Nodup.subperm nodup fewer).length_le
  have := hs.base
  have := ht.base
  have := hs.size
  have := ht.size
  unfold nextSymbol
  omega

/-- Arrays with the same elements correspond. If the second session has room for one, so has the
first. -/
theorem renumbering_arrayOf (unambiguous : c.Unambiguous) (rel : (renumbering c).related s t)
    {element : String} (name : c.IsElementName element)
    (known : Text.lowercase element ∈ c.elementKeys) :
    Coupled (renumbering c).coupling s t (Query.arrayOf element) (Query.arrayOf element)
      (renumbering c).Found := by
  obtain ⟨hs, ht, pending, arrays⟩ := rel
  rcases ht.arrayOf unambiguous name known with
    ⟨y, t', right, gt, ht', at'', keys'⟩ | ⟨right, full, fresh⟩
  · rcases hs.arrayOf unambiguous name known with
      ⟨x, s', left, gs, hs', at', keys⟩ | ⟨left, full, fresh⟩
    · refine .done left right gs gt ⟨hs', ht', by rw [gs.pending, gt.pending, pending], ?_⟩
        (.some ⟨.array element, at', at''⟩)
      intro key hkey
      rw [keys] at hkey
      rw [keys']
      exact hkey.imp_left fun h => arrays h
    · -- The second session ends up with the arrays of the first one and one more.
      refine absurd ?_ full
      have subset : Text.lowercase element :: s.arrays.keys ⊆ t'.arrays.keys :=
        List.cons_subset.2 ⟨(keys' _).2 (.inr rfl), fun key hkey =>
          (keys' key).2 (.inl (arrays hkey))⟩
      have nodup : (Text.lowercase element :: s.arrays.keys).Nodup :=
        List.nodup_cons.2 ⟨Registry.notMem_keys fresh, hs.sound.arrayKeys⟩
      exact Nat.le_trans (nextSymbol_le (n := 1) hs.sound ht'.sound nodup subset rfl)
        ht'.sound.room
  · exact .exhausted right fun _ =>
      ht.sound.crowded_codebase ht.confined (crowded_of_full known fresh full)

theorem renumbering_lawful (hc : c.Sound) (unambiguous : c.Unambiguous) :
    (renumbering c).Lawful c where
  codebase := hc
  sound rel := rel.1.sound
  pending rel := rel.2.2.1
  withPending rel nodes :=
    ⟨rel.1.withPending nodes, rel.2.1.withPending nodes, rfl, rel.2.2.2⟩
  types_mono := by
    rintro s t s' t' a b ⟨key, ha, hb⟩ e e'
    exact ⟨key, ha.extends e, hb.extends e'⟩
  symbols_mono := by
    intro s t s' t' a b hab e e'
    cases hab with
    | shared inside => exact .shared inside
    | block inside left right => exact .block inside (e.types left) (e'.types right)
  info := by
    rintro s t a b rel ⟨key, ha, hb⟩
    exact renumbering_info rel.1 rel.2.1 ha hb
  inj := by
    rintro s t a b a' b' rel ⟨key, ha, hb⟩ ⟨key', ha', hb'⟩
    constructor
    · rintro rfl
      cases rel.1.key_unique ha ha'
      exact rel.2.1.type_unique hb hb'
    · rintro rfl
      cases rel.2.1.key_unique hb hb'
      exact rel.1.type_unique ha ha'
  intrinsic _ kind := ⟨.intrinsic kind, rfl, rfl⟩
  symbol rel hab := renumbering_symbol hc rel.1 rel.2.1 hab
  own _ owned := symbolsAt_own owned
  scriptType := by
    intro s t a b rel hab
    cases renumbering_scriptType hc unambiguous rel hab with
    | done left right gs gt rel' found =>
      obtain ⟨answer, s', run, -, -, -, named⟩ := rel.1.sound.scriptType hc a
      cases run.symm.trans left
      exact .done left right gs gt rel' ⟨found, named⟩
    | fault left right tolerated => exact .fault left right tolerated
    | exhausted right tolerated => exact .exhausted right tolerated
  arrayOf := by
    rintro s t a b x y rel ⟨key, ha, hb⟩ element hx hy
    obtain ⟨x', y', hx', hy', alike⟩ := renumbering_info rel.1 rel.2.1 ha hb
    cases hx.symm.trans hx'
    cases hy.symm.trans hy'
    rw [alike.qualifiedName]
    exact renumbering_arrayOf unambiguous rel (isElementName rel.1.sound element hx)
      (rel.1.sound.elementKey element hx)

theorem renumbering_reporting (hc : c.Sound) (unambiguous : c.Unambiguous) :
    (renumbering c).Reporting c where
  toLawful := renumbering_lawful hc unambiguous
  measured _ := .inr fun h => by cases h

end Correspondence

namespace Query

open Correspondence

variable {c : Codebase} {s t : Session}

/-- What follows a sequence of validations in a new session differs from it in numbers only. -/
theorem related_mapM_validate (hc : c.Sound) (unambiguous : c.Unambiguous)
    {roots : List NodeId} {reports : List Report} (h : s.Canonical c)
    (history : (roots.mapM (Query.validate c)).run s = .ok (reports, t)) :
    t.Canonical c ∧ t.pending = s.pending := by
  induction roots generalizing s reports with
  | nil =>
    cases history
    exact ⟨h, rfl⟩
  | cons root roots ih =>
    rw [List.mapM_cons] at history
    obtain ⟨report, s', first, rest⟩ := bind_eq_ok history
    obtain ⟨reports', t', next, last⟩ := bind_eq_ok rest
    cases last
    have has : c.tree.Has root := by
      by_contra foreign
      rw [Query.validate_foreign foreign] at first
      cases first
    have step := (renumbering_reporting hc unambiguous).validate
      ⟨h, h, rfl, List.Subset.refl _⟩ has
    cases step with
    | done left _ gs _ rel =>
      cases first.symm.trans left
      obtain ⟨canonical, pending⟩ := ih rel.1 next
      exact ⟨canonical, pending.trans gs.pending⟩
    | fault left => cases first.symm.trans left
    | exhausted right => cases first.symm.trans right

/-- Validations of any nodes in a session have no influence on what a later one reports: it is what
is reported in a new session, unless the codebase is crowded and the numbers for symbols have been
used up. -/
theorem validate_independent (bound : c.Bound) (grown : c.tree.Grown)
    (descending : c.tree.Descending) (shielded : c.tree.Shielded) (unambiguous : c.Unambiguous)
    {roots : List NodeId} {reports : List Report} (start : Session.start c = .ok s)
    (history : (roots.mapM (Query.validate c)).run s = .ok (reports, t)) (root : NodeId) :
    (Query.validate c root).run' t = (Query.validate c root).run' s ∨
      (Query.validate c root).run' t = .error .symbolsExhausted ∧ c.Crowded := by
  have hc := bound.sound grown descending shielded
  have run (s : Session) : (Query.validate c root).run' s =
      Query.validate c root s >>= fun r => .ok r.1 := rfl
  rw [run, run]
  by_cases has : c.tree.Has root
  · rw [Session.start_eq] at start
    split at start
    · rename_i room
      cases start
      have fresh := Session.canonical_initial room
      obtain ⟨canonical, pending⟩ := related_mapM_validate hc unambiguous fresh history
      have coupled := (renumbering_reporting hc unambiguous).validate
        ⟨fresh, canonical, pending.symm, List.nil_subset _⟩ has
      cases coupled with
      | done left right _ _ _ same =>
        rw [left, right, same]
        exact .inl rfl
      | fault left right =>
        rw [left, right]
        exact .inl rfl
      | exhausted right tolerated =>
        rw [right]
        exact .inr ⟨rfl, tolerated rfl⟩
    · cases start
  · rw [validate_foreign has, validate_foreign has]
    exact .inl rfl

/-- Two scripts that make the same two array types in different orders:

    ScriptName A
    Struct S
    EndStruct
    Function F()
      s[] x = new int[None]
    EndFunction

    ScriptName B
    Function G()
      int[] y = new A:S[None]
    EndFunction -/
def arrayForms : List Form :=
  [.identifier "A", .scriptHeader ⟨0⟩ none ∅, .identifier "S", .struct ⟨2⟩ [],
    .identifier "F", .parameterList [], .functionHeader none ⟨4⟩ ⟨5⟩ ∅,
    .identifier "s", .typeName ⟨7⟩ true, .identifier "x",
    .identifier "int", .typeName ⟨10⟩ true, .literal .none, .newArray ⟨11⟩ ⟨12⟩,
    .declaration ⟨8⟩ ⟨9⟩ (some ⟨13⟩), .function ⟨6⟩ [⟨14⟩], .script ⟨1⟩ [] [⟨3⟩, ⟨15⟩],
    .identifier "B", .scriptHeader ⟨17⟩ none ∅,
    .identifier "G", .parameterList [], .functionHeader none ⟨19⟩ ⟨20⟩ ∅,
    .identifier "int", .typeName ⟨22⟩ true, .identifier "y",
    .identifier "A:S", .typeName ⟨25⟩ true, .literal .none, .newArray ⟨26⟩ ⟨27⟩,
    .declaration ⟨23⟩ ⟨24⟩ (some ⟨28⟩), .function ⟨21⟩ [⟨29⟩], .script ⟨18⟩ [] [⟨30⟩]]

theorem second_script_does_not_matter : ∃ (c : Codebase) (s t : Session) (reports : List Report),
    c.tree = .ofForms arrayForms ∧ c.Bound ∧ c.tree.Grown ∧ c.tree.Descending ∧
    c.tree.Shielded ∧ c.Unambiguous ∧ Session.start c = .ok s ∧
    ([⟨31⟩].mapM (Query.validate c)).run s = .ok (reports, t) ∧
    ((Query.validate c ⟨16⟩).run' t = (Query.validate c ⟨16⟩).run' s ∨
      (Query.validate c ⟨16⟩).run' t = .error .symbolsExhausted ∧ c.Crowded) := by
  have carried : (Program.ofTree (.ofForms arrayForms) >>= fun p =>
      Session.start p.codebase >>= fun s =>
        ([⟨31⟩].mapM (Query.validate p.codebase)).run s >>= fun r =>
          .ok (p.tree = .ofForms arrayForms ∧ p.codebase.Unambiguous : Bool)).toOption.any id := by
    decide +kernel
  obtain ⟨holds, run, true'⟩ := exists_ok_of_any carried
  obtain ⟨p, bound, run⟩ := exists_of_bind_eq_ok run
  obtain ⟨s, start, run⟩ := exists_of_bind_eq_ok run
  obtain ⟨⟨reports, t⟩, history, run⟩ := exists_of_bind_eq_ok run
  cases run
  obtain ⟨tree, unambiguous⟩ := of_decide_eq_true true'
  have same : p.codebase.tree = .ofForms arrayForms := tree
  have grown : p.codebase.tree.Grown := same ▸ Tree.grown_ofForms (by decide)
  have descending : p.codebase.tree.Descending := same ▸ by decide +kernel
  have shielded : p.codebase.tree.Shielded := same ▸ by decide +kernel
  exact ⟨_, s, t, reports, same, .program bound, grown, descending, shielded, unambiguous, start,
    history, validate_independent (.program bound) grown descending shielded unambiguous start
      history ⟨16⟩⟩

end Query

end PapyrusAnalysis
