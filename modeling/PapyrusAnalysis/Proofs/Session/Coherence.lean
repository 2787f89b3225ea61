import PapyrusAnalysis.Proofs.Session.FullNames
import PapyrusAnalysis.Proofs.Session.Hierarchy

/-!
# Types and the symbols behind them

Types come from four sources: the language, scripts, the structs of scripts, and arrays. They are
made at different moments and found again in three registries. Each type belongs to a symbol of its
kind, which leads back to the type, however the questions were mixed. This takes that the qualified
names of scripts and structs are different, since the types of both are kept by these names alone.

A struct is a member of one script only, and comes once among its members: the parents of symbols
tell to which script a member belongs. So no question can make a second type of a struct.

## Main definitions

* `Codebase.MembersApart`: what is true of the members of scripts.
* `Session.Traced`: how the types of a session are found again.
* `Session.Coherent`: types, symbols and the registries of a session agree.

## Main statements

* `Codebase.Bound.membersApart`: binding leads to scripts that share no members.
* `Session.stays_coherent`: whatever has been asked, a session is coherent.
-/

namespace PapyrusAnalysis

/-! ## The members of scripts -/

namespace Binding

variable {t : Tree} {symbols : SymbolTable} {id id' member : SymbolId} {symbol symbol' : Symbol}

theorem ownParts?_of_script {node identifier : NodeId}
    (hd : t.declaration? node = some (.script, identifier)) :
    ∃ parts, ownParts? t node = some parts := by
  have form : ∃ header imports definitions,
      t.formAt node = some (.script header imports definitions) := by
    unfold Tree.declaration? at hd
    split at hd <;> grind
  obtain ⟨header, imports, definitions, hf⟩ := form
  exact ⟨_, ownParts?_script hf⟩

/-- Scripts stand below nothing. -/
theorem Sound.not_below (sound : Sound t symbols) (hs : symbols.get? id = some symbol)
    (kind : symbol.kind = .script) (above : SymbolId) : ¬ Below symbols above id := by
  rintro ⟨_, hs', parent⟩
  cases hs.symm.trans hs'
  cases parent.symm.trans ((sound.fits hs).top.1 kind)

/-- A symbol is a member of one script only. -/
theorem Lists.unique (sound : Sound t symbols) {members members' : List SymbolId}
    {parts parts' : List NodeId} (h : Lists symbols id .script members parts)
    (h' : Lists symbols id' .script members' parts') (hs : symbols.get? id = some symbol)
    (hs' : symbols.get? id' = some symbol') (kind : symbol.kind = .script)
    (kind' : symbol'.kind = .script) (hm : member ∈ members) (hm' : member ∈ members') :
    id = id' := by
  rcases h.below member hm with direct | ⟨-, between, up, down⟩ <;>
    rcases h'.below member hm' with direct' | ⟨-, between', up', down'⟩
  · exact direct.eq direct'
  · cases direct.eq down'
    exact absurd up' (sound.not_below hs kind _)
  · cases down.eq direct'
    exact absurd up (sound.not_below hs' kind' _)
  · cases down.eq down'
    exact up.eq up'

end Binding

namespace Codebase

variable {c : Codebase}

/-- No symbol is a member of a script twice, and no struct of two scripts. -/
structure MembersApart (c : Codebase) : Prop where
  nodup : ∀ {script symbol}, c.symbols.get? script = some symbol → symbol.kind = .script →
    symbol.members.Nodup
  owner : ∀ {script other entry}, c.HasStruct script entry → c.HasStruct other entry →
    script = other

theorem Bound.membersApart (bound : c.Bound) : c.MembersApart := by
  obtain ⟨b, run, same⟩ := bound.exists_binding
  have lists {script : SymbolId} {symbol : Symbol} (hs : c.symbols.get? script = some symbol)
      (kind : symbol.kind = .script) :
      ∃ parts, Binding.Lists c.symbols script .script symbol.members parts := by
    have furnished := Binding.furnished_ofTree run (same ▸ hs)
    obtain ⟨node, identifier, hd, declared⟩ := furnished.declared
    obtain ⟨parts, own⟩ := Binding.ownParts?_of_script (kind ▸ declared)
    exact ⟨parts, same ▸ kind ▸ furnished.lists hd own⟩
  have sound : Binding.Sound c.tree c.symbols := same ▸ Binding.sound_of_ofTree run
  refine ⟨fun hs kind => (lists hs kind).elim fun _ h => h.nodup, ?_⟩
  rintro script other entry ⟨⟨above, hs, kind, hm⟩, -⟩ ⟨⟨above', hs', kind', hm'⟩, -⟩
  obtain ⟨parts, h⟩ := lists hs kind
  obtain ⟨parts', h'⟩ := lists hs' kind'
  exact h.unique sound h' hs hs' kind kind' hm hm'

end Codebase

/-- The kind of the symbols that types of a form belong to. The symbol of an array is that of a
script. -/
def TypeForm.symbolKind : TypeForm → SymbolKind
  | .intrinsic _ => .intrinsic
  | .script _ => .script
  | .struct _ => .struct
  | .array _ => .script

theorem Intrinsic.getElem?_all {id : TypeId} {kind : Intrinsic} :
    all[id.index]? = some kind ↔ id = kind.typeId := by
  have there : all[kind.typeId.index]? = some kind := by cases kind <;> rfl
  constructor
  · intro h
    obtain ⟨inside, -⟩ := List.getElem?_eq_some_iff.1 h
    have same := (List.getElem?_inj inside (by decide)).1 (h.trans there.symm)
    cases id
    exact congrArg TypeId.mk same
  · rintro rfl
    exact there

namespace Session

variable {c : Codebase} {s : Session} {script : SymbolId} {symbol : Symbol}

/-! ## Entering structs -/

/-- What is entered last under a key is found there. -/
theorem find?_enterAll_last {key : Symbol → String} {next i : Nat}
    {entries : List (SymbolId × Symbol)} {table : Registry String TypeId}
    {entry : SymbolId × Symbol} (h : entries[i]? = some entry)
    (last : ∀ j other, entries[j]? = some other → key other.2 = key entry.2 → j ≤ i) :
    (enterAll key next entries table).find? (key entry.2) = some ⟨next + i⟩ := by
  induction entries generalizing next i table with
  | nil => cases h
  | cons first rest ih =>
    obtain ⟨id, symbol⟩ := first
    cases i with
    | zero =>
      cases h
      have others : ∀ other ∈ rest, key other.2 ≠ key symbol := by
        intro other ho same
        obtain ⟨j, hj⟩ := List.getElem?_of_mem ho
        exact absurd (last (j + 1) other (by simpa using hj) same) (by omega)
      rw [enterAll, find?_enterAll_of_ne others, Registry.find?_insert, if_pos rfl]
      rfl
    | succ i =>
      rw [enterAll, ih (by simpa using h) fun j other hj same => ?_]
      · rw [Nat.add_assoc, Nat.add_comm 1]
      · have := last (j + 1) other (by simpa using hj) same
        omega

theorem mem_values_enterAll {key : Symbol → String} {next : Nat}
    {entries : List (SymbolId × Symbol)} {table : Registry String TypeId} {id : TypeId}
    (h : id ∈ (enterAll key next entries table).values) :
    id ∈ table.values ∨ ∃ i entry, entries[i]? = some entry ∧ id = ⟨next + i⟩ := by
  induction entries generalizing next table with
  | nil => exact .inl h
  | cons first rest ih =>
    rcases ih h with old | ⟨i, entry, hi, rfl⟩
    · rcases Registry.mem_values_insert old with rfl | old
      · exact .inr ⟨0, first, rfl, rfl⟩
      · exact .inl old
    · exact .inr ⟨i + 1, entry, by simpa using hi, by rw [Nat.add_assoc, Nat.add_comm 1]⟩

theorem nodup_select {ids : List SymbolId} (nodup : ids.Nodup) (wanted : Symbol → Bool) :
    (s.select c ids wanted).Nodup := by
  refine nodup.filterMap ?_
  intro id id' entry h h'
  grind

/-! ## How types are found again -/

/-- How the types of a session are found again if the qualified names of scripts and structs are
different. -/
structure Traced (c : Codebase) (s : Session) : Prop extends Lodged c s where
  intrinsics : ∀ {id info kind}, s.types.get? id = some info → info.form = .intrinsic kind →
    id = kind.typeId ∧ s.synthetic.get? info.symbol = some (intrinsicSymbol kind info.symbol)
  /-- A struct type is kept by its qualified name, and the script that it names has a type. -/
  kept : ∀ {id info type}, s.types.get? id = some info → info.form = .struct type →
    ∃ owner entry, s.ScriptAt owner type ∧ c.HasStruct owner entry ∧
      info = structInfo type entry id ∧
      s.named.find? (qualifiedKey entry.2) = some id
  listed : ∀ {type info table id}, s.types.get? type = some info → info.form = .script table →
    id ∈ table.values → ∃ entry, s.types.get? id = some (structInfo type entry id)
  arraysKept : ∀ {id info element}, s.types.get? id = some info → info.form = .array element →
    s.arraySymbols.find? info.symbol = some id

theorem Traced.withPending (h : Traced c s) (pending : List NodeId) :
    Traced c { s with pending := pending } where
  toLodged := h.toLodged.withPending pending
  intrinsics := h.intrinsics
  kept := h.kept
  listed := h.listed
  arraysKept := h.arraysKept

theorem traced_initial (room : c.symbols.base + c.symbols.size + 7 ≤ SymbolId.limit) :
    Traced c (initial c) where
  toLodged := lodged_initial room
  intrinsics {id info kind} hi hf := by
    obtain ⟨kind', position, hf', -, made⟩ := get?_initial hi
    cases hf.symm.trans hf'
    exact ⟨Intrinsic.getElem?_all.1 position, made⟩
  kept hi hf := by
    obtain ⟨kind, -, hf', -⟩ := get?_initial hi
    cases hf.symm.trans hf'
  listed hi hf := by
    obtain ⟨kind, -, hf', -⟩ := get?_initial hi
    cases hf.symm.trans hf'
  arraysKept hi hf := by
    obtain ⟨kind, -, hf', -⟩ := get?_initial hi
    cases hf.symm.trans hf'

/-- Structs with the same qualified name are the same. -/
theorem eq_of_qualifiedKey (unambiguous : c.Unambiguous) {owner owner' : SymbolId}
    {entry entry' : SymbolId × Symbol} (has : c.HasStruct owner entry)
    (has' : c.HasStruct owner' entry') (same : qualifiedKey entry.2 = qualifiedKey entry'.2) :
    entry = entry' := by
  have id : entry.1 = entry'.1 := unambiguous _ _ _ _ has.2.1 has'.2.1
    (by simp [Codebase.namesType, has.2.2]) (by simp [Codebase.namesType, has'.2.2]) same
  exact Prod.ext id (Option.some.inj (has.2.1.symm.trans (id ▸ has'.2.1)))

section

variable {structs : List (SymbolId × Symbol)} (unambiguous : c.Unambiguous)
  (members : c.MembersApart) (hstructs : ∀ entry ∈ structs, c.HasStruct script entry)
  (hs : c.symbols.get? script = some symbol) (kind : symbol.kind = .script)
  (fresh : s.named.find? (qualifiedKey symbol) = none)

include unambiguous hstructs

/-- A new struct is found by its qualified name. -/
theorem find?_withScript_struct (nodup : structs.Nodup) {i : Nat} {entry : SymbolId × Symbol}
    (hi : structs[i]? = some entry) :
    (s.withScript script symbol structs).named.find? (qualifiedKey entry.2) =
      some ⟨s.types.size + 1 + i⟩ := by
  have has := hstructs entry (List.mem_of_getElem? hi)
  refine find?_enterAll_last hi fun j other hj same => Nat.le_of_eq ?_
  obtain rfl := eq_of_qualifiedKey unambiguous (hstructs other (List.mem_of_getElem? hj)) has same
  obtain ⟨inside, -⟩ := List.getElem?_eq_some_iff.1 hj
  exact (List.getElem?_inj inside nodup).1 (hj.trans hi.symm)

include members hs kind fresh

/-- The structs of a script that had no type leave those of other scripts alone. -/
theorem Traced.find?_withScript (h : Traced c s) {owner : SymbolId} {type : TypeId}
    {entry : SymbolId × Symbol} (scriptAt : s.ScriptAt owner type) (has : c.HasStruct owner entry) :
    (s.withScript script symbol structs).named.find? (qualifiedKey entry.2) =
      s.named.find? (qualifiedKey entry.2) := by
  have others : ∀ other ∈ structs, qualifiedKey other.2 ≠ qualifiedKey entry.2 := by
    intro other ho same
    have has' := hstructs other ho
    obtain rfl := eq_of_qualifiedKey unambiguous has' has same
    -- The struct would be one of the script that is new, whose structs have no types yet.
    cases members.owner has has'
    cases fresh.symm.trans (h.entered scriptAt hs)
  have unlike : qualifiedKey symbol ≠ qualifiedKey entry.2 := by
    intro same
    cases unambiguous _ _ _ _ hs has.2.1 (by simp [Codebase.namesType, kind])
      (by simp [Codebase.namesType, has.2.2]) same
    cases hs.symm.trans has.2.1
    cases kind.symm.trans has.2.2
  exact (find?_enterAll_of_ne others).trans
    ((Registry.find?_insert _ _ _ _).trans (if_neg unlike))

theorem Traced.withScript (h : Traced c s) (nodup : structs.Nodup) :
    Traced c (s.withScript script symbol structs) where
  toLodged := h.toLodged.withScript unambiguous.scriptsApart hstructs hs kind fresh
  intrinsics {id info kind} hi hf := by
    rcases TypeTable.get?_extend_cases hi with old | ⟨i, _, -, new, rfl⟩
    · exact h.intrinsics old hf
    · rcases scriptBlock_cases new with ⟨-, rfl⟩ | ⟨j, entry, -, -, rfl⟩ <;> cases hf
  kept {id info type} hi hf := by
    rcases TypeTable.get?_extend_cases hi with old | ⟨i, _, rfl, new, rfl⟩
    · obtain ⟨owner, entry, scriptAt, has, rfl, found⟩ := h.kept old hf
      have scriptAt' := scriptAt.extends (extends_withScript s script symbol structs)
      refine ⟨owner, entry, scriptAt', has, rfl, ?_⟩
      rw [h.find?_withScript unambiguous members hstructs hs kind fresh scriptAt has, found]
    · rcases scriptBlock_cases new with ⟨-, rfl⟩ | ⟨j, entry, rfl, hj, rfl⟩
      · cases hf
      · cases hf
        refine ⟨script, entry, ⟨_, get?_withScript_script s script symbol structs, rfl, rfl⟩,
          hstructs entry (List.mem_of_getElem? hj), rfl, ?_⟩
        rw [find?_withScript_struct unambiguous hstructs nodup hj, Nat.add_assoc, Nat.add_comm 1]
  listed {type info table id} hi hf listed := by
    rcases TypeTable.get?_extend_cases hi with old | ⟨i, _, rfl, new, rfl⟩
    · obtain ⟨entry, there⟩ := h.listed old hf listed
      exact ⟨entry, (extends_withScript s script symbol structs).types there⟩
    · rcases scriptBlock_cases new with ⟨rfl, rfl⟩ | ⟨j, entry, -, -, rfl⟩
      · cases hf
        rcases mem_values_enterAll listed with none | ⟨j, entry, hj, rfl⟩
        · cases none
        · exact ⟨entry, get?_withScript_struct s script symbol hj⟩
      · cases hf
  arraysKept {id info element} hi hf := by
    rcases TypeTable.get?_extend_cases hi with old | ⟨i, _, -, new, rfl⟩
    · exact h.arraysKept old hf
    · rcases scriptBlock_cases new with ⟨-, rfl⟩ | ⟨j, entry, -, -, rfl⟩ <;> cases hf

end

/-- The symbols of array types are older than the next symbol. -/
theorem Settled.array_lt (h : Settled c s) {type : TypeId} {info : TypeInfo} {element : String}
    (hi : s.types.get? type = some info) (hf : info.form = .array element) :
    info.symbol.index < s.nextSymbol := by
  obtain ⟨start, rfl, block⟩ := h.arrays hi hf
  have owned := SymbolTable.owns_of_get? (block (i := 0) rfl)
  simp only [SymbolTable.owns, Bool.and_eq_true, decide_eq_true_eq] at owned
  exact owned.2

theorem Traced.withArray (h : Traced c s) {element : String}
    (room : s.nextSymbol + 27 ≤ SymbolId.limit) : Traced c (s.withArray element) where
  toLodged := h.toLodged.withArray room
  intrinsics {id info kind} hi hf := by
    rcases get?_withArray_cases hi with old | ⟨-, rfl⟩
    · obtain ⟨position, made⟩ := h.intrinsics old hf
      exact ⟨position, (extends_withArray s element).synthetic made⟩
    · cases hf
  kept {id info type} hi hf := by
    rcases get?_withArray_cases hi with old | ⟨-, rfl⟩
    · obtain ⟨owner, entry, scriptAt, rest⟩ := h.kept old hf
      exact ⟨owner, entry, scriptAt.extends (extends_withArray s element), rest⟩
    · cases hf
  listed {type info table id} hi hf listed := by
    rcases get?_withArray_cases hi with old | ⟨-, rfl⟩
    · obtain ⟨entry, there⟩ := h.listed old hf listed
      exact ⟨entry, (extends_withArray s element).types there⟩
    · cases hf
  arraysKept {id info element'} hi hf := by
    refine (Registry.find?_insert _ _ _ _).trans ?_
    rcases get?_withArray_cases hi with old | ⟨rfl, rfl⟩
    · have before := h.array_lt old hf
      rw [if_neg, h.arraysKept old hf]
      intro same
      rw [← same] at before
      exact Nat.lt_irrefl _ before
    · exact if_pos rfl

/-- Questions that are answered without a fault, and how types are found again. -/
def tracing (c : Codebase) : Conduct Session := { settling c with keeps := Traced c }

theorem steps_tracing (firm : c.Firm) (unambiguous : c.Unambiguous) (members : c.MembersApart) :
    Query.Steps c (tracing c) where
  scriptType id := by
    intro s answer t kept run
    refine ⟨((steps_settling firm).scriptType id kept.toSettled run).1, ?_⟩
    rcases kept.scriptType_cases run with rfl | ⟨symbol, hs, kind, fresh, rfl⟩
    · exact kept
    · refine kept.withScript unambiguous members (hasStruct_of_select firm.symbols hs kind) hs kind
        fresh ?_
      rw [selectNumbered_members firm.symbols s hs]
      exact nodup_select (members.nodup hs kind) _
  arrayOf element := by
    intro s answer t kept named run
    have settled := named.imp fun _ kept => kept.toLodged.toSettled
    refine ⟨((steps_settling firm).arrayOf element kept.toSettled settled run).1, ?_⟩
    rcases kept.arrayOf_cases run with rfl | ⟨room, rfl⟩
    · exact kept
    · exact kept.withArray room
  pending {s t node} kept := ⟨kept.withPending _, fun grows kept' =>
    ⟨⟨⟨grows.grown.types, grows.grown.synthetic⟩, grows.named⟩, kept'.withPending _⟩⟩

/-- Whatever has been asked, the types of a session are found again. -/
theorem Arises.traced (arises : s.Arises c) (firm : c.Firm) (unambiguous : c.Unambiguous)
    (members : c.MembersApart) : s.Traced c := by
  obtain ⟨first, started, leads⟩ := arises
  rw [start_eq] at started
  split at started
  · cases started
    have steps := steps_tracing firm unambiguous members
    exact (leads.steady steps (traced_initial (by assumption))).2
  · cases started

/-! ## From symbols back to types -/

section

variable {type : TypeId} {info : TypeInfo} (h : s.Traced c)
  (hi : s.types.get? type = some info)

include h hi

/-- The symbol behind a type is of its kind. -/
theorem Traced.exists_symbol : ∃ symbol, s.symbol? c info.symbol = some symbol ∧
    symbol.kind = info.form.symbolKind := by
  have own {kind : SymbolKind} (stands : info.Stands c kind) :
      ∃ symbol, s.symbol? c info.symbol = some symbol ∧ symbol.kind = kind := by
    obtain ⟨symbol, hs, kind, -⟩ := stands
    exact ⟨symbol, (symbol?_own s (SymbolTable.owns_of_get? hs)).trans hs, kind⟩
  have fits := h.infos hi
  cases hf : info.form with
  | intrinsic kind =>
    have foreign := fits.foreign (.inl (by simp [TypeInfo.isIntrinsic, hf]))
    exact ⟨_, (symbol?_synthetic s foreign).trans (h.intrinsics hi hf).2, rfl⟩
  | script table => exact own (fits.script (by simp [TypeInfo.isScript, hf]))
  | struct script => exact own (fits.struct (by simp [TypeInfo.isStruct, hf]))
  | array element => exact ⟨_, Query.symbol?_array h.toSettled hi hf, rfl⟩

theorem Traced.structType_eq (firm : c.Firm) {script : TypeId} (hf : info.form = .struct script) :
    Query.structType c info.symbol s = .ok (some type, s) := by
  obtain ⟨owner, entry, -, ⟨-, hs, kind⟩, rfl, found⟩ := h.kept hi hf
  obtain ⟨parent, hp⟩ : ∃ parent, entry.2.parent = some parent := by
    refine Option.ne_none_iff_exists'.1 fun top => ?_
    cases kind.symm.trans ((firm.symbols.fits hs).top.2 top)
  have known : Query.symbol? c entry.1 s = .ok (some entry.2, s) := by
    rw [Query.symbol?_eq, symbol?_own s (SymbolTable.owns_of_get? hs), hs]
  refine (bind_ok known).trans ?_
  dsimp only
  rw [hp]
  refine (bind_ok (show (get : Query Session) s = .ok (s, s) from rfl)).trans ?_
  unfold qualifiedKey at found
  rw [found]
  rfl

theorem Traced.arrayType_eq {element : String} (hf : info.form = .array element) :
    Query.scriptType c info.symbol s = .ok (some type, s) := by
  rw [Query.scriptType_eq, Query.symbol?_array h.toSettled hi hf, h.arraysKept hi hf]
  dsimp only
  rw [if_neg (by simp [ArrayMembers.arraySymbol]),
    if_pos (ArrayMembers.isGeneratedArray_arraySymbol _ _)]

/-- The symbol behind a type leads back to the type, and nothing is made. -/
theorem Traced.typeOfSymbol_eq (firm : c.Firm) :
    Query.typeOfSymbol c info.symbol s = .ok (some type, s) := by
  obtain ⟨symbol, known, hkind⟩ := h.exists_symbol hi
  refine (bind_ok ((Query.symbol?_eq c info.symbol s).trans (by rw [known]))).trans ?_
  dsimp only
  rw [hkind]
  cases hf : info.form with
  | intrinsic kind =>
    obtain ⟨rfl, made⟩ := h.intrinsics hi hf
    have foreign := (h.infos hi).foreign (.inl (by simp [TypeInfo.isIntrinsic, hf]))
    obtain rfl := Option.some.inj (known.symm.trans ((symbol?_synthetic s foreign).trans made))
    have same : TypeTable.intrinsic? kind.name = some kind.typeId := by cases kind <;> rfl
    exact congrArg (fun found => Except.ok (found, s)) same
  | script table =>
    exact h.toSettled.scriptType_eq firm ⟨info, hi, TypeInfo.isScript_of_form hf, rfl⟩
  | struct script => exact h.structType_eq hi firm hf
  | array element => exact h.arrayType_eq hi hf

end

/-! ## Sessions as a whole -/

/-- The symbols of the codebase and then those of the session, in the order of their numbers. -/
def symbolList (c : Codebase) (s : Session) : List Symbol :=
  c.symbols.symbols.toList ++ s.synthetic.symbols.toList

theorem Founded.symbol?_eq_getElem? (h : Founded c s) (base : c.symbols.base = 0) (id : SymbolId) :
    s.symbol? c id = (s.symbolList c)[id.index]? := by
  have following : s.synthetic.base = c.symbols.symbols.size := by
    rw [h.base, base, Nat.zero_add]
    rfl
  by_cases inside : id.index < c.symbols.symbols.size
  · have owned : c.symbols.owns id := by
      simpa [SymbolTable.owns, base, SymbolTable.size] using inside
    rw [symbol?_own s owned, symbolList, List.getElem?_append_left (by simpa using inside)]
    simp [SymbolTable.get?, base]
  · have foreign : ¬ c.symbols.owns id := by
      simpa [SymbolTable.owns, base, SymbolTable.size] using inside
    rw [symbol?_synthetic s foreign, symbolList,
      List.getElem?_append_right (by simpa using inside), SymbolTable.get?, following,
      if_pos (Nat.le_of_not_lt inside)]
    simp

theorem Founded.length_symbolList (h : Founded c s) (base : c.symbols.base = 0) :
    (s.symbolList c).length = s.nextSymbol := by
  simp [symbolList, nextSymbol, h.base, base, SymbolTable.size]

/-- Types, symbols and the registries of a session agree. -/
structure Coherent (c : Codebase) (s : Session) : Prop where
  /-- Every type carries its position as its number, and is found by it. -/
  types : ∀ type, type.index < s.types.size ↔ ∃ info, s.types.get? type = some info ∧
    info.id = type ∧ s.types.types.toList[type.index]? = some info
  /-- Numbers stay below the limit of numbers. -/
  bounded : s.types.size ≤ s.nextSymbol ∧ s.nextSymbol ≤ SymbolId.limit
  intrinsics : ∀ type kind, Intrinsic.all[type.index]? = some kind ↔
    ∃ info, s.types.get? type = some info ∧ info.form = .intrinsic kind
  apart : ∀ id, ¬ (c.symbols.owns id ∧ s.synthetic.owns id)
  /-- Every symbol carries its position as its number, and is found by it. Those of the codebase
  come first. -/
  symbols : ∀ id, id.index < s.nextSymbol ↔ ∃ symbol, s.symbol? c id = some symbol ∧
    symbol.id = id ∧ (s.symbolList c)[id.index]? = some symbol
  backed : ∀ type info, s.types.get? type = some info →
    ∃ symbol, s.symbol? c info.symbol = some symbol ∧ symbol.kind = info.form.symbolKind
  /-- The symbol behind a type leads back to it, and nothing is made. -/
  recovered : ∀ type info, s.types.get? type = some info →
    Query.typeOfSymbol c info.symbol s = .ok (some type, s)
  listed : ∀ type info table id, s.types.get? type = some info → info.form = .script table →
    id ∈ table.values → ∃ other, s.types.get? id = some other ∧ other.form = .struct type

/-- Different types have different symbols, so there are no more types than symbols. -/
theorem Traced.size_types_le (h : s.Traced c) (firm : c.Firm) : s.types.size ≤ s.nextSymbol := by
  have base : c.symbols.base = 0 := firm.symbols.base
  have nodup : s.types.ids.Nodup :=
    List.nodup_range.map fun a b same => congrArg TypeId.index same
  have few : s.types.ids.length ≤ s.nextSymbol := by
    refine length_types_le s 0 nodup (fun type ht => ?_) fun a _ b _ info info' hi hi' same => ?_
    · obtain ⟨i, inside, rfl⟩ := List.mem_map.1 ht
      have hi : s.types.get? ⟨i⟩ = some _ := Array.getElem?_eq_getElem (List.mem_range.1 inside)
      obtain ⟨symbol, known, -⟩ := h.exists_symbol hi
      rw [h.symbol?_eq_getElem? base] at known
      obtain ⟨below, -⟩ := List.getElem?_eq_some_iff.1 known
      rw [h.length_symbolList base] at below
      exact ⟨_, hi, Nat.zero_le _, by omega⟩
    · have back := h.typeOfSymbol_eq hi firm
      rw [same, h.typeOfSymbol_eq hi' firm] at back
      cases back
      rfl
  simpa [TypeTable.ids] using few

/-- Whatever has been asked about a codebase with different names of scripts and structs, types,
symbols and the registries of the session agree. -/
theorem stays_coherent (bound : c.Bound) (unambiguous : c.Unambiguous) (arises : s.Arises c) :
    s.Coherent c := by
  have firm := bound.firm unambiguous.scriptsApart
  have traced := arises.traced firm unambiguous bound.membersApart
  have base : c.symbols.base = 0 := firm.symbols.base
  refine ⟨fun type => ?_, ⟨traced.size_types_le firm, traced.room⟩, fun type kind => ?_,
    fun id => ?_, fun id => ?_, fun type info hi => traced.exists_symbol hi,
    fun type info hi => traced.typeOfSymbol_eq hi firm, ?_⟩
  · constructor
    · intro inside
      have found := Array.getElem?_eq_getElem inside
      exact ⟨_, found, traced.typeNumbered found, Array.getElem?_toList.trans found⟩
    · rintro ⟨info, hi, -, -⟩
      exact (Array.getElem?_eq_some_iff.1 hi).1
  · rw [Intrinsic.getElem?_all]
    constructor
    · rintro rfl
      exact traced.intrinsic kind
    · rintro ⟨info, hi, hf⟩
      exact (traced.intrinsics hi hf).1
  · rintro ⟨own, synthetic⟩
    have following := traced.base
    simp only [SymbolTable.owns, Bool.and_eq_true, decide_eq_true_eq] at own synthetic
    omega
  · rw [← traced.length_symbolList base]
    constructor
    · intro inside
      have placed := List.getElem?_eq_getElem inside
      have found := (traced.symbol?_eq_getElem? base id).trans placed
      exact ⟨_, found, traced.id_eq firm found, placed⟩
    · rintro ⟨symbol, -, -, placed⟩
      exact (List.getElem?_eq_some_iff.1 placed).1
  · intro type info table id hi hf listed
    obtain ⟨entry, there⟩ := traced.listed hi hf listed
    exact ⟨_, there, rfl⟩

/-- A script with a struct and another one in a state, and a second script:

    ScriptName A
    Struct S
    EndStruct
    State T
      Struct U
      EndStruct
    EndState

    ScriptName B -/
def mixedForms : List Form :=
  [.identifier "A", .scriptHeader ⟨0⟩ none ∅, .identifier "S", .struct ⟨2⟩ [], .identifier "T",
    .identifier "U", .struct ⟨5⟩ [], .state ⟨4⟩ false [⟨6⟩], .script ⟨1⟩ [] [⟨3⟩, ⟨7⟩],
    .identifier "B", .scriptHeader ⟨9⟩ none ∅, .script ⟨10⟩ [] []]

theorem mixed_types_coherent : ∃ (c : Codebase) (s : Session), c.tree = .ofForms mixedForms ∧
    c.Bound ∧ c.Unambiguous ∧ s.Arises c ∧ (s.types.types.toList.drop 7).map (·.qualifiedName) =
      ["B", "A", "A:S", "A:T:U", "A:S[]", "int[]"] ∧ s.Coherent c := by
  obtain ⟨p, run, fits⟩ := exists_ok_of_any (o := Program.ofTree (.ofForms mixedForms))
    (f := fun p => decide (p.tree = .ofForms mixedForms ∧ p.codebase.Unambiguous) &&
      (start p.codebase).toOption.any fun first =>
        ((Question.resolveType "B" []).ask p.codebase first).toOption.any
          fun (r : Unit × Session) =>
            ((Question.arrayTypeFor "A:S").ask p.codebase r.2).toOption.any
              fun (q : Unit × Session) =>
                ((Question.arrayTypeFor "int").ask p.codebase q.2).toOption.any
                  fun (u : Unit × Session) =>
                    (u.2.types.types.toList.drop 7).map (·.qualifiedName) =
                      ["B", "A", "A:S", "A:T:U", "A:S[]", "int[]"])
    (by decide +kernel)
  obtain ⟨settings, fits⟩ := Bool.and_eq_true_iff.1 fits
  obtain ⟨tree, unambiguous⟩ := of_decide_eq_true settings
  obtain ⟨first, started, fits⟩ := exists_ok_of_any fits
  obtain ⟨⟨_, second⟩, asked, fits⟩ := exists_ok_of_any fits
  obtain ⟨⟨_, third⟩, asked', fits⟩ := exists_ok_of_any fits
  obtain ⟨⟨_, s⟩, asked'', fits⟩ := exists_ok_of_any fits
  have bound : p.codebase.Bound := .program run
  have arises : s.Arises p.codebase :=
    ⟨first, started, .ask _ (.ask _ (.ask _ .refl asked) asked') asked''⟩
  exact ⟨p.codebase, s, tree, bound, unambiguous, arises, of_decide_eq_true fits,
    stays_coherent bound unambiguous arises⟩

end Session

end PapyrusAnalysis
