import Mathlib.Logic.Relation
import PapyrusAnalysis.Proofs.Session.Naming

/-!
# Inheritance

Which scripts a script inherits from is a matter of the codebase: it extends the script with the
name that it gives, if there is one, and so on. If scripts stand apart, then whatever has been asked
in a session, the hierarchy of a script type consists of the types of these scripts, and the members
of the type are the members of these scripts. No question about them fails.

## Main definitions

* `Codebase.Inherits`: a script is another one or inherits from it.
* `Codebase.Provides`: a symbol is a member of a script or of one that it inherits from.
* `Codebase.Admits`: a script has a member that a filter admits.
* `Session.Settled`: what is true of the types of every session if scripts stand apart.
* `Session.settling`: questions that are answered without a fault.
-/

namespace PapyrusAnalysis

namespace Codebase

variable {c : Codebase} {script id : SymbolId} {symbol : Symbol}

/-- The script with a name, unless it is the name of an intrinsic type. -/
def scriptNamed (c : Codebase) (name : String) : Option SymbolId :=
  if (TypeTable.intrinsic? name).isSome then none else c.scripts.find? name

/-- The script that a script extends. -/
def extended? (c : Codebase) (script : SymbolId) : Option SymbolId :=
  ((c.symbols.get? script).bind (·.extendedScript)).bind c.scriptNamed

/-- A script is another one or inherits from it. -/
def Inherits (c : Codebase) : SymbolId → SymbolId → Prop :=
  Relation.ReflTransGen fun a b => c.extended? a = some b

/-- A symbol is a member of a script or struct. -/
def Lists (c : Codebase) (above id : SymbolId) (symbol : Symbol) : Prop :=
  ∃ found, c.symbols.get? above = some found ∧ id ∈ found.members ∧ c.symbols.get? id = some symbol

/-- A symbol is a member of a script or of one that it inherits from. -/
def Provides (c : Codebase) (script id : SymbolId) (symbol : Symbol) : Prop :=
  ∃ ancestor, c.Inherits script ancestor ∧ c.Lists ancestor id symbol

theorem Inherits.of_extended {next last : SymbolId} (rest : c.Inherits next last)
    (h : c.extended? script = some next) : c.Inherits script last :=
  Relation.ReflTransGen.head h rest

/-- The scripts on the way from a script to the scripts that it inherits from, up to one that has
been seen. -/
inductive Ascends (c : Codebase) : SymbolId → List SymbolId → List SymbolId → Prop where
  | stop {script seen} (again : script ∈ seen) : c.Ascends script seen []
  | alone {script seen} (new : script ∉ seen) (last : c.extended? script = none) :
      c.Ascends script seen [script]
  | step {script next seen ancestors} (new : script ∉ seen) (h : c.extended? script = some next)
      (rest : c.Ascends next (script :: seen) ancestors) :
      c.Ascends script seen (script :: ancestors)

namespace Ascends

variable {seen ancestors : List SymbolId}

theorem inherits (h : c.Ascends script seen ancestors) : ∀ a ∈ ancestors, c.Inherits script a := by
  induction h with
  | stop _ => simp
  | alone _ _ =>
    intro a ha
    rw [List.mem_singleton.1 ha]
    exact .refl
  | step _ extending _ ih =>
    intro a ha
    rcases List.mem_cons.1 ha with rfl | ha
    · exact .refl
    · exact (ih a ha).of_extended extending

theorem first (h : c.Ascends script seen ancestors) : script ∈ ancestors ∨ script ∈ seen := by
  cases h with
  | stop again => exact .inr again
  | alone _ _ => exact .inl (by simp)
  | step _ _ _ => exact .inl (by simp)

/-- None is left out but for some that have been seen and those that these inherit from. -/
theorem closed (h : c.Ascends script seen ancestors) :
    ∀ a ∈ ancestors, ∀ b, c.extended? a = some b → b ∈ ancestors ∨ b ∈ seen := by
  induction h with
  | stop _ => simp
  | alone _ last =>
    intro a ha b hb
    rw [List.mem_singleton.1 ha, last] at hb
    cases hb
  | @step script next seen ancestors _ extending rest ih =>
    intro a ha b hb
    have onward : b ∈ ancestors ∨ b ∈ script :: seen := by
      rcases List.mem_cons.1 ha with rfl | ha
      · cases extending.symm.trans hb
        exact rest.first
      · exact ih a ha b hb
    rw [List.mem_cons, or_left_comm] at onward
    rwa [List.mem_cons, or_assoc]

theorem unseen (h : c.Ascends script seen ancestors) : ∀ a ∈ ancestors, a ∉ seen := by
  induction h with
  | stop _ => simp
  | alone new _ => simpa using new
  | step new _ _ ih =>
    intro a ha
    rcases List.mem_cons.1 ha with rfl | ha
    · exact new
    · exact fun inside => ih a ha (List.mem_cons_of_mem _ inside)

theorem nodup (h : c.Ascends script seen ancestors) : ancestors.Nodup := by
  induction h with
  | stop _ => exact .nil
  | alone _ _ => exact List.nodup_singleton _
  | step _ _ rest ih =>
    exact List.nodup_cons.2 ⟨fun inside => rest.unseen _ inside (by simp), ih⟩

/-- There is one way up. -/
theorem unique {others : List SymbolId} (h : c.Ascends script seen ancestors)
    (h' : c.Ascends script seen others) : ancestors = others := by
  induction h generalizing others with
  | stop again =>
    cases h' with
    | stop _ => rfl
    | alone new _ => exact absurd again new
    | step new _ _ => exact absurd again new
  | alone new last =>
    cases h' with
    | stop again => exact absurd again new
    | alone _ _ => rfl
    | step _ extending _ => cases last.symm.trans extending
  | step new extending _ ih =>
    cases h' with
    | stop again => exact absurd again new
    | alone _ last => cases last.symm.trans extending
    | step _ extending' rest =>
      cases extending.symm.trans extending'
      rw [ih rest]

/-- If none has been seen, none is left out. -/
theorem mem_iff (h : c.Ascends script [] ancestors) (a : SymbolId) :
    a ∈ ancestors ↔ c.Inherits script a := by
  have first := h.first
  have closed := h.closed
  simp only [List.not_mem_nil, or_false] at first closed
  refine ⟨h.inherits a, fun above => ?_⟩
  induction above with
  | refl => exact first
  | tail _ extending ih => exact closed _ ih _ extending

end Ascends

theorem Lists.provides (h : c.Lists script id symbol) : c.Provides script id symbol :=
  ⟨script, .refl, h⟩

/-- A symbol belongs to a group of the members of a script, which may be inherited. -/
def InGroup (c : Codebase) (script : SymbolId) (group : Query.MemberGroup) (id : SymbolId)
    (symbol : Symbol) : Prop :=
  (if group.inherited then c.Provides script id symbol else c.Lists script id symbol) ∧
    group.wanted symbol

/-- A script has a member of one of some kinds that a filter admits. -/
def Admits (c : Codebase) (script : SymbolId) (kinds : FlagSet MemberKind) (filter : Filter)
    (id : SymbolId) (symbol : Symbol) : Prop :=
  ∃ group ∈ Query.staticGroups filter ++ Query.instanceGroups filter, kinds.has group.kind ∧
    c.InGroup script group id symbol

theorem Admits.provides {kinds : FlagSet MemberKind} {filter : Filter}
    (h : c.Admits script kinds filter id symbol) : c.Provides script id symbol := by
  obtain ⟨group, -, -, member, -⟩ := h
  split at member
  · exact member
  · exact member.provides

theorem Provides.get? (h : c.Provides script id symbol) : c.symbols.get? id = some symbol := by
  obtain ⟨ancestor, -, found, -, -, known⟩ := h
  exact known

/-- The members of a script or struct that satisfy a condition, in their order. -/
def entries (c : Codebase) (wanted : Symbol → Bool) (above : SymbolId) : List (SymbolId × Symbol) :=
  (((c.symbols.get? above).map (·.members)).getD []).filterMap fun id =>
    (c.symbols.get? id).bind fun symbol => if wanted symbol then some (id, symbol) else none

theorem mem_entries {wanted : Symbol → Bool} {entry : SymbolId × Symbol} :
    entry ∈ c.entries wanted script ↔ c.Lists script entry.1 entry.2 ∧ wanted entry.2 := by
  obtain ⟨id, symbol⟩ := entry
  simp only [entries, Lists, List.mem_filterMap, Option.bind_eq_some_iff,
    Option.ite_none_right_eq_some, Option.some.injEq, Prod.mk.injEq]
  constructor
  · rintro ⟨_, member, _, known, holds, rfl, rfl⟩
    cases hs : c.symbols.get? script with
    | none => simp [hs] at member
    | some found => exact ⟨⟨found, rfl, by simpa [hs] using member, known⟩, holds⟩
  · rintro ⟨⟨found, hs, member, known⟩, holds⟩
    exact ⟨id, by simpa [hs] using member, symbol, known, holds, rfl, rfl⟩

/-- The members of a script in one group, of which the inherited ones are those of the scripts on
the way up. -/
def groupEntries (c : Codebase) (filter : Filter) (hierarchy : List SymbolId) (script : SymbolId)
    (group : Query.MemberGroup) : List (SymbolId × Symbol) :=
  if group.inherited && !filter.has .declaredOnly then
    let whole := hierarchy.flatMap (c.entries group.wanted)
    if filter.has .flattenHierarchy then dropShadowed [] whole else whole
  else c.entries group.wanted script

theorem scriptNamed_of_intrinsic {name : String} {type : TypeId}
    (h : TypeTable.intrinsic? name = some type) : c.scriptNamed name = none := by
  simp [scriptNamed, h]

theorem scriptNamed_eq {name : String} (h : TypeTable.intrinsic? name = none) :
    c.scriptNamed name = c.scripts.find? name := by
  simp [scriptNamed, h]

theorem extended?_eq (hs : c.symbols.get? script = some symbol) :
    c.extended? script = symbol.extendedScript.bind c.scriptNamed := by
  rw [extended?, hs, Option.bind_some]

end Codebase

/-! ## Filters -/

namespace Filter

theorem admits_function (symbol : Symbol) : everything.admitsFunction symbol = true := by
  unfold admitsFunction admitsScope admitsNativity
  cases symbol.isGlobal <;> cases symbol.isNative <;> decide

theorem admits_property (symbol : Symbol) : everything.admitsProperty symbol = true := by
  unfold admitsProperty admitsAuto admitsAccess
  cases symbol.isAuto <;> cases symbol.isAutoReadOnly || symbol.isConst <;> decide

end Filter

namespace TypeInfo

variable {info : TypeInfo}

theorem form_of_script (h : info.isScript) : ∃ structs, info.form = .script structs := by
  unfold isScript at h
  split at h
  · exact ⟨_, by assumption⟩
  · cases h

theorem form_of_struct (h : info.isStruct) : ∃ script, info.form = .struct script := by
  unfold isStruct at h
  split at h
  · exact ⟨_, by assumption⟩
  · cases h

end TypeInfo

namespace Session

variable {c : Codebase} {s t : Session} {script other : SymbolId} {symbol : Symbol} {type : TypeId}

theorem ScriptAt.symbol_unique (h : s.ScriptAt script type) (h' : s.ScriptAt other type) :
    script = other := by
  obtain ⟨info, hi, -, rfl⟩ := h
  obtain ⟨info', hi', -, rfl⟩ := h'
  cases hi.symm.trans hi'
  rfl

/-- What is true of the types of every session if scripts stand apart. -/
structure Settled (c : Codebase) (s : Session) : Prop extends Founded c s where
  infos : ∀ {id info}, s.types.get? id = some info → info.Fits c s
  intrinsic : ∀ kind : Intrinsic, ∃ info, s.types.get? kind.typeId = some info ∧
    info.form = .intrinsic kind
  /-- A script has one type, which is found by its qualified name. -/
  entered : ∀ {script symbol type}, s.ScriptAt script type → c.symbols.get? script = some symbol →
    s.named.find? (qualifiedKey symbol) = some type
  /-- The symbol of an array type is followed by those of its members. -/
  arrays : ∀ {id info element}, s.types.get? id = some info → info.form = .array element →
    ∃ start, info = arrayInfo element start id ∧ ∀ {i symbol},
      (ArrayMembers.block element start)[i]? = some symbol →
        s.synthetic.get? ⟨start + i⟩ = some symbol

theorem Settled.withPending (h : Settled c s) (pending : List NodeId) :
    Settled c { s with pending := pending } where
  toFounded := h.toFounded.withPending pending
  infos hi := (h.infos hi).extends ⟨fun hi => hi, fun hs => hs⟩
  intrinsic := h.intrinsic
  entered := h.entered
  arrays := h.arrays

theorem settled_initial (room : c.symbols.base + c.symbols.size + 7 ≤ SymbolId.limit) :
    Settled c (initial c) where
  toFounded := founded_initial room
  infos := (sound_initial c room).infos
  intrinsic kind := ⟨_, types_initial c kind, rfl⟩
  entered scriptAt _ := by
    obtain ⟨info, hi, isScript, -⟩ := scriptAt
    obtain ⟨⟨kind, hf, -⟩, -⟩ := infos_initial hi
    simp [TypeInfo.isScript, hf] at isScript
  arrays hi hf := by
    obtain ⟨⟨kind, hf', -⟩, -⟩ := infos_initial hi
    cases hf.symm.trans hf'

/-- The symbol of a script type is that of a script. -/
theorem Settled.exists_script (h : Settled c s) (scriptAt : s.ScriptAt script type) :
    ∃ symbol, c.symbols.get? script = some symbol ∧ symbol.kind = .script := by
  obtain ⟨info, hi, isScript, rfl⟩ := scriptAt
  obtain ⟨symbol, hs, kind, -⟩ := (h.infos hi).script isScript
  exact ⟨symbol, hs, kind⟩

/-- A script has no two types. -/
theorem Settled.type_unique (h : Settled c s) {type' : TypeId} (scriptAt : s.ScriptAt script type)
    (scriptAt' : s.ScriptAt script type') : type = type' := by
  obtain ⟨symbol, hs, -⟩ := h.exists_script scriptAt
  exact Option.some.inj ((h.entered scriptAt hs).symm.trans (h.entered scriptAt' hs))

theorem Settled.withScript (h : Settled c s) (apart : c.ScriptsApart)
    {structs : List (SymbolId × Symbol)}
    (hstructs : ∀ entry ∈ structs, c.symbols.get? entry.1 = some entry.2 ∧ entry.2.kind = .struct)
    (hs : c.symbols.get? script = some symbol) (kind : symbol.kind = .script)
    (fresh : s.named.find? (qualifiedKey symbol) = none) :
    Settled c (s.withScript script symbol structs) where
  toFounded := h.toFounded.withScript hstructs apart hs kind
  infos hi := fits_withScript h.infos hs kind hstructs hi
  intrinsic kind := by
    obtain ⟨info, hi, hf⟩ := h.intrinsic kind
    exact ⟨info, (extends_withScript s script symbol structs).types hi, hf⟩
  entered {other found type} scriptAt ho := by
    obtain ⟨info, hi, isScript, rfl⟩ := scriptAt
    rcases TypeTable.get?_extend_cases hi with old | ⟨i, _, rfl, new, rfl⟩
    · obtain ⟨found', ho', isScript', -⟩ := (h.infos old).script isScript
      cases ho.symm.trans ho'
      have there := h.entered ⟨info, old, isScript, rfl⟩ ho
      rw [find?_withScript hstructs apart script symbol ho isScript', if_neg, there]
      intro same
      rw [same, there] at fresh
      cases fresh
    · rcases scriptBlock_cases new with ⟨rfl, rfl⟩ | ⟨j, entry, -, -, rfl⟩
      · cases hs.symm.trans ho
        rw [find?_withScript hstructs apart script symbol hs kind, if_pos rfl]
        rfl
      · cases isScript
  arrays {id info element} hi hf := by
    rcases TypeTable.get?_extend_cases hi with old | ⟨i, _, -, new, rfl⟩
    · exact h.arrays old hf
    · rcases scriptBlock_cases new with ⟨-, rfl⟩ | ⟨j, entry, -, -, rfl⟩ <;> cases hf

theorem Settled.withArray (h : Settled c s) {element : String}
    (room : s.nextSymbol + 27 ≤ SymbolId.limit) : Settled c (s.withArray element) where
  toFounded := h.toFounded.withArray room
  infos hi := fits_withArray h.infos h.base hi
  intrinsic kind := by
    obtain ⟨info, hi, hf⟩ := h.intrinsic kind
    exact ⟨info, (extends_withArray s element).types hi, hf⟩
  entered scriptAt ho := by
    obtain ⟨info, hi, isScript, rfl⟩ := scriptAt
    rcases get?_withArray_cases hi with old | ⟨-, rfl⟩
    · exact h.entered ⟨info, old, isScript, rfl⟩ ho
    · cases isScript
  arrays {id info element'} hi hf := by
    rcases get?_withArray_cases hi with old | ⟨-, rfl⟩
    · obtain ⟨start, rfl, block⟩ := h.arrays old hf
      exact ⟨start, rfl, fun hb => (extends_withArray s element).synthetic (block hb)⟩
    · cases hf
      exact ⟨_, rfl, fun hb => (SymbolTable.get?_extend s.synthetic _ _).trans hb⟩

/-- Questions that are answered without a fault if scripts stand apart. -/
def settling (c : Codebase) : Conduct Session where
  keeps := Settled c
  grows := Retains c
  refl := (naming c).refl
  trans := (naming c).trans
  tolerates _ := False

theorem steps_settling (firm : c.Firm) : Query.Steps c (settling c) where
  scriptType id := by
    intro s answer t kept run
    refine ⟨((steps_naming firm).scriptType id kept.toFounded run).1, ?_⟩
    rcases kept.scriptType_cases run with rfl | ⟨symbol, hs, kind, fresh, rfl⟩
    · exact kept
    · exact kept.withScript firm.apart (select_structs firm.symbols s hs) hs kind fresh
  arrayOf element := by
    intro s answer t kept named run
    have founded := named.imp fun _ => Settled.toFounded
    refine ⟨((steps_naming firm).arrayOf element kept.toFounded founded run).1, ?_⟩
    rcases kept.arrayOf_cases run with rfl | ⟨room, rfl⟩
    · exact kept
    · exact kept.withArray room
  pending {s t node} kept := ⟨kept.withPending _, fun grows kept' =>
    ⟨⟨⟨grows.grown.types, grows.grown.synthetic⟩, grows.named⟩, kept'.withPending _⟩⟩

/-- Whatever has been asked, a session is settled. -/
theorem Arises.settled (arises : s.Arises c) (firm : c.Firm) : s.Settled c := by
  obtain ⟨first, started, leads⟩ := arises
  rw [start_eq] at started
  split at started
  · cases started
    exact (leads.steady (steps_settling firm) (settled_initial (by assumption))).2
  · cases started

end Session

/-! ## The types of scripts -/

namespace Query

open Session

variable {c : Codebase} {s : Session} {script : SymbolId} {symbol : Symbol} {type : TypeId}
  {info : TypeInfo}

theorem typeInfo_eq (hi : s.types.get? type = some info) : typeInfo type s = .ok (info, s) :=
  liftM_ok (TypeTable.get_eq_ok hi) s

/-- A script of the codebase has a type. -/
theorem runs_scriptType (firm : c.Firm) (settled : s.Settled c)
    (hs : c.symbols.get? script = some symbol) (kind : symbol.kind = .script) :
    Runs (settling c) s (scriptType c script) fun found t =>
      ∃ type, found = some type ∧ t.ScriptAt script type := by
  have own : s.symbol? c script = some symbol :=
    (symbol?_own s (SymbolTable.owns_of_get? hs)).trans hs
  have genuine := (firm.symbols.fits hs).genuine
  have unfolded := scriptType_eq c script s
  rw [own] at unfolded
  dsimp only at unfolded
  rw [if_neg (by simp [kind]), if_neg (by simp [genuine])] at unfolded
  cases hfind : s.named.find? (qualifiedKey symbol) with
  | some type =>
    rw [hfind] at unfolded
    exact .done unfolded ((settling c).refl s) settled
      ⟨type, rfl, settled.scripts hs kind hfind⟩
  | none =>
    rw [hfind] at unfolded
    obtain ⟨grows, kept⟩ := (steps_settling firm).scriptType script settled unfolded
    exact .done unfolded grows kept ⟨_, rfl, _, get?_withScript_script s script symbol _, rfl, rfl⟩

/-- A full name leads to the type of a script if and only if it is the name of one. -/
theorem runs_resolveFullName (firm : c.Firm) (settled : s.Settled c) (name : String) :
    Runs (settling c) s (resolveFullName c name) fun found t =>
      (∀ id, c.scriptNamed name = some id → ∃ type, found = some type ∧ t.ScriptAt id type) ∧
      (c.scriptNamed name = none → ∀ type, found = some type → ∃ info,
        t.types.get? type = some info ∧ info.isScript = false ∧ info.isArray = false) := by
  unfold resolveFullName
  cases intrinsic : TypeTable.intrinsic? name with
  | some type =>
    obtain ⟨kind, -, rfl⟩ := Option.map_eq_some_iff.1 intrinsic
    obtain ⟨info, hi, hf⟩ := settled.intrinsic kind
    refine .pure settled ⟨?_, ?_⟩
    · simp [Codebase.scriptNamed_of_intrinsic intrinsic]
    · rintro - _ ⟨⟩
      exact ⟨info, hi, by simp [TypeInfo.isScript, hf], by simp [TypeInfo.isArray, hf]⟩
  | none =>
    rw [Codebase.scriptNamed_eq intrinsic]
    cases direct : c.scripts.find? name with
    | some script =>
      obtain ⟨symbol, hs, kind, -⟩ := firm.scripts direct
      refine (runs_scriptType firm settled hs kind).imp ?_
      rintro _ t - - ⟨type, rfl, scriptAt⟩
      refine ⟨?_, by simp⟩
      rintro _ ⟨⟩
      exact ⟨type, rfl, scriptAt⟩
    | none =>
      dsimp only
      split
      · exact .pure settled (by simp)
      split
      · rename_i script hscript
        obtain ⟨symbol, hs, kind, -⟩ := firm.scripts hscript
        refine .bind (runs_scriptType firm settled hs kind) ?_
        rintro _ t - settled' ⟨type, rfl, info, hi, -⟩
        refine .known (typeInfo_eq hi) ?_
        split
        · rename_i structs hf
          refine .pure settled' ⟨by simp, fun _ type found => ?_⟩
          obtain ⟨other, ho, struct⟩ := (settled'.infos hi).structs hf found
          obtain ⟨script', hf'⟩ := TypeInfo.form_of_struct struct
          exact ⟨other, ho, by simp [TypeInfo.isScript, hf'], by simp [TypeInfo.isArray, hf']⟩
        · exact .pure settled' (by simp)
      · exact .pure settled (by simp)

/-- There are no more scripts than symbols. -/
theorem length_le_of_scriptsAt {seen : List TypeId} {scripts : List SymbolId}
    (settled : s.Settled c) (before : List.Forall₂ (fun x a => s.ScriptAt a x) seen scripts)
    (nodup : scripts.Nodup) : seen.length ≤ c.symbols.size := by
  have inside : scripts ⊆ c.symbols.ids := by
    intro a ha
    obtain ⟨x, -, scriptAt⟩ := exists_left_of_mem before ha
    obtain ⟨symbol, hs, -⟩ := settled.exists_script scriptAt
    exact SymbolTable.mem_ids.2 (SymbolTable.owns_of_get? hs)
  have few := (List.Nodup.subperm nodup inside).length_le
  rw [before.length_eq]
  simpa [SymbolTable.ids] using few

/-- The search through the scripts that a script inherits from. It stops at a script that has been
seen, and otherwise leaves none out. -/
theorem runs_hierarchyFrom (firm : c.Firm) (settled : s.Settled c) {fuel : Nat}
    {seen : List TypeId} {scripts : List SymbolId} (scriptAt : s.ScriptAt script type)
    (before : List.Forall₂ (fun x a => s.ScriptAt a x) seen scripts) (nodup : scripts.Nodup)
    (enough : c.symbols.size + 2 ≤ fuel + seen.length) :
    Runs (settling c) s (hierarchyFrom c fuel seen type) fun types t => ∃ ancestors,
      List.Forall₂ (fun x a => t.ScriptAt a x) types ancestors ∧
        c.Ascends script scripts ancestors := by
  induction fuel generalizing s seen scripts type script with
  | zero =>
    have few := length_le_of_scriptsAt settled before nodup
    omega
  | succ fuel ih =>
    unfold hierarchyFrom
    split
    · rename_i again
      obtain ⟨a, ha, scriptAt'⟩ := exists_right_of_mem before (List.contains_iff_mem.1 again)
      cases scriptAt.symbol_unique scriptAt'
      exact .pure settled ⟨[], .nil, .stop ha⟩
    rename_i fresh
    have new : script ∉ scripts := by
      intro inside
      obtain ⟨x, hx, scriptAt'⟩ := exists_left_of_mem before inside
      rw [settled.type_unique scriptAt' scriptAt] at hx
      exact fresh (List.contains_iff_mem.2 hx)
    -- Without a script to go on with, the type stands alone.
    have alone {t : Session} (settled' : t.Settled c) (grows : s.Retains c t)
        (last : c.extended? script = none) :
        Runs (settling c) t (pure [type] : Query (List TypeId)) fun types t => ∃ ancestors,
          List.Forall₂ (fun x a => t.ScriptAt a x) types ancestors ∧
            c.Ascends script scripts ancestors :=
      .pure settled' ⟨[script], .cons (scriptAt.extends grows.grown) .nil, .alone new last⟩
    obtain ⟨symbol, hs, -⟩ := settled.exists_script scriptAt
    obtain ⟨info, hi, -, hsymbol⟩ := id scriptAt
    have own := (symbol?_own s (SymbolTable.owns_of_get? hs)).trans hs
    have extended := Codebase.extended?_eq hs
    refine .known (typeInfo_eq hi) (.known (symbol?_eq c info.symbol s) ?_)
    rw [hsymbol, own, Option.bind_some]
    cases hname : symbol.extendedScript with
    | none =>
      rw [hname, Option.bind_none] at extended
      exact alone settled ((settling c).refl s) extended
    | some name =>
      rw [hname, Option.bind_some] at extended
      refine .bind (runs_resolveFullName firm settled name) ?_
      rintro found t grows settled' ⟨named, unnamed⟩
      cases hnext : c.scriptNamed name with
      | none =>
        rw [hnext] at extended
        cases found with
        | none => exact alone settled' grows extended
        | some next =>
          obtain ⟨info', hi', notScript, -⟩ := unnamed hnext next rfl
          refine .known (typeInfo_eq hi') ?_
          rw [notScript]
          exact alone settled' grows extended
      | some b =>
        rw [hnext] at extended
        obtain ⟨next, rfl, scriptAt'⟩ := named b hnext
        obtain ⟨info', hi', isScript', -⟩ := id scriptAt'
        have here : t.ScriptAt script type := scriptAt.extends grows.grown
        have before' := before.imp fun _ _ h => h.extends grows.grown
        refine .known (typeInfo_eq hi') ?_
        rw [isScript']
        refine .bind (ih settled' scriptAt' (.cons here before') (List.nodup_cons.2 ⟨new, nodup⟩)
          (by rw [List.length_cons]; omega)) ?_
        rintro types u grows' settled'' ⟨ancestors, all, ascends⟩
        exact .pure settled'' ⟨script :: ancestors, .cons (here.extends grows'.grown) all,
          .step new extended ascends⟩

/-- The hierarchy of a script type consists of the types of the scripts that it inherits from. -/
theorem runs_scriptHierarchy (firm : c.Firm) (settled : s.Settled c)
    (scriptAt : s.ScriptAt script type) :
    Runs (settling c) s (scriptHierarchy c type) fun types t => ∃ ancestors,
      List.Forall₂ (fun x a => t.ScriptAt a x) types ancestors ∧ c.Ascends script [] ancestors :=
  runs_hierarchyFrom firm settled scriptAt .nil .nil (by simp)

theorem exists_ok_of_settling {α : Type} {x : Query α} {post : α → Session → Prop}
    (h : Runs (settling c) s x post) :
    ∃ answer t, x s = .ok (answer, t) ∧ s.Retains c t ∧ t.Settled c ∧ post answer t := by
  cases h with
  | done run grows kept holds => exact ⟨_, _, run, grows, kept, holds⟩
  | fault _ tolerated => exact tolerated.elim

/-- There is a way up from every script with a type. -/
theorem exists_ascends (firm : c.Firm) (settled : s.Settled c) (scriptAt : s.ScriptAt script type) :
    ∃ hierarchy, c.Ascends script [] hierarchy := by
  obtain ⟨-, -, -, -, -, hierarchy, -, ascends⟩ :=
    exists_ok_of_settling (runs_scriptHierarchy firm settled scriptAt)
  exact ⟨hierarchy, ascends⟩

/-! ## Members -/

/-- The members of the symbol of a script or struct that satisfy a condition. -/
theorem ownMembers_eq (firm : c.Firm) (hi : s.types.get? type = some info)
    (hs : c.symbols.get? info.symbol = some symbol) (wanted : Symbol → Bool) :
    ownMembers c type wanted s = .ok (c.entries wanted info.symbol, s) := by
  refine (bind_ok (typeInfo_eq hi)).trans ((bind_ok (symbol?_eq c info.symbol s)).trans ?_)
  rw [(symbol?_own s (SymbolTable.owns_of_get? hs)).trans hs]
  have same : s.selectNumbered c symbol.members wanted = c.entries wanted info.symbol := by
    rw [selectNumbered_members firm.symbols s hs]
    simp only [select, Codebase.entries, hs, Option.map_some, Option.getD_some]
    refine List.filterMap_congr fun id member => ?_
    rw [symbol?_own s ((firm.symbols.fits hs).owned id (by simp [member]))]
    cases c.symbols.get? id <;> rfl
  rw [← same]
  rfl

theorem ownMembers_of_script (firm : c.Firm) (settled : s.Settled c)
    (scriptAt : s.ScriptAt script type) (wanted : Symbol → Bool) :
    ownMembers c type wanted s = .ok (c.entries wanted script, s) := by
  obtain ⟨symbol, hs, -⟩ := settled.exists_script scriptAt
  obtain ⟨info, hi, -, rfl⟩ := scriptAt
  exact ownMembers_eq firm hi hs wanted

theorem runs_inheritedMembers (firm : c.Firm) (settled : s.Settled c)
    (scriptAt : s.ScriptAt script type) {hierarchy : List SymbolId}
    (ascends : c.Ascends script [] hierarchy) {filter : Filter}
    (inherits : filter.has .declaredOnly = false) (wanted : Symbol → Bool) :
    Runs (settling c) s (inheritedMembers c type filter wanted) fun entries _ =>
      entries = if filter.has .flattenHierarchy then
        dropShadowed [] (hierarchy.flatMap (c.entries wanted))
      else hierarchy.flatMap (c.entries wanted) := by
  obtain ⟨info, hi, isScript, -⟩ := id scriptAt
  refine .known (typeInfo_eq hi) ?_
  rw [isScript, inherits, if_neg (by simp)]
  refine .bind (runs_scriptHierarchy firm settled scriptAt) ?_
  rintro types t - settled' ⟨ancestors, all, ascends'⟩
  obtain rfl := ascends.unique ascends'
  -- Each type on the way up gives the members of its script.
  have each : ∃ results, types.mapM (ownMembers c · wanted) t = .ok (results, t) ∧
      results.flatten = hierarchy.flatMap (c.entries wanted) := by
    clear ascends ascends'
    induction all with
    | nil => exact ⟨[], rfl, rfl⟩
    | cons scriptAt' _ ih =>
      obtain ⟨results, run, flat⟩ := ih
      refine ⟨_ :: results, ?_, congrArg (_ ++ ·) flat⟩
      rw [List.mapM_cons, bind_ok (ownMembers_of_script firm settled' scriptAt' wanted),
        bind_ok run]
      rfl
  obtain ⟨results, run, flat⟩ := each
  exact .known run (.pure settled' (by rw [flat]))

/-- The members of a script in a group are those of the scripts on the way up. -/
theorem runs_groupMembers (firm : c.Firm) (settled : s.Settled c)
    (scriptAt : s.ScriptAt script type) {hierarchy : List SymbolId}
    (ascends : c.Ascends script [] hierarchy) (filter : Filter) (group : MemberGroup) :
    Runs (settling c) s (groupMembers c type filter group) fun ids _ =>
      ids = (c.groupEntries filter hierarchy script group).map (·.1) := by
  have own := ownMembers_of_script firm settled scriptAt group.wanted
  unfold groupMembers Codebase.groupEntries
  cases group.inherited with
  | false => exact .known own (.pure settled rfl)
  | true =>
    cases inherits : filter.has .declaredOnly with
    | true =>
      obtain ⟨info, hi, isScript, -⟩ := id scriptAt
      have only : inheritedMembers c type filter group.wanted s =
          .ok (c.entries group.wanted script, s) := by
        refine (bind_ok (typeInfo_eq hi)).trans ?_
        rw [inherits, if_pos (by simp)]
        exact own
      exact .known only (.pure settled rfl)
    | false =>
      refine .bind (runs_inheritedMembers firm settled scriptAt ascends inherits group.wanted) ?_
      rintro _ t - settled' rfl
      exact .pure settled' rfl

/-- A filter that leaves out no inherited members. -/
structure WholeFilter (filter : Filter) : Prop where
  inherits : filter.has .declaredOnly = false
  unfolded : filter.has .flattenHierarchy = false

/-- If no inherited member is left out, then all are listed. -/
theorem mem_groupEntries {hierarchy : List SymbolId} (ascends : c.Ascends script [] hierarchy)
    {filter : Filter} (whole : WholeFilter filter) (group : MemberGroup)
    {entry : SymbolId × Symbol} : entry ∈ c.groupEntries filter hierarchy script group ↔
      c.InGroup script group entry.1 entry.2 := by
  unfold Codebase.groupEntries Codebase.InGroup
  cases group.inherited with
  | false => exact Codebase.mem_entries
  | true =>
    rw [whole.inherits, whole.unfolded]
    simp only [Bool.not_false, Bool.and_self, if_true, Bool.false_eq_true, if_false,
      List.mem_flatMap, Codebase.mem_entries, ascends.mem_iff, Codebase.Provides]
    constructor
    · rintro ⟨a, inherits, lists, holds⟩
      exact ⟨⟨a, inherits, lists⟩, holds⟩
    · rintro ⟨⟨a, inherits, lists⟩, holds⟩
      exact ⟨a, inherits, lists, holds⟩

/-- The group of the functions that a filter admits. -/
def functionGroup (filter : Filter) : MemberGroup :=
  ⟨.function, fun s => s.kind = .function && filter.admitsFunction s,
    fun t => t.isScript || t.isArray, true⟩

theorem functionGroup_mem (filter : Filter) :
    functionGroup filter ∈ staticGroups filter ++ instanceGroups filter := by
  simp [staticGroups, functionGroup]

/-- Every group of members is found in a script. -/
theorem inTypes_of_script (isScript : info.isScript) {filter : Filter} {group : MemberGroup}
    (h : group ∈ staticGroups filter ++ instanceGroups filter) : group.inTypes info := by
  simp only [staticGroups, instanceGroups, List.mem_append, List.mem_cons, List.not_mem_nil,
    or_false, List.mem_ite_nil_right] at h
  rcases h with ((rfl | rfl) | ⟨-, rfl⟩) | ⟨-, rfl | rfl | rfl | rfl | rfl⟩ <;> simp [isScript]

/-- The members of a script type are listed group by group. -/
theorem runs_membersOf_groups (firm : c.Firm) (settled : s.Settled c)
    (scriptAt : s.ScriptAt script type) {hierarchy : List SymbolId}
    (ascends : c.Ascends script [] hierarchy) (kinds : FlagSet MemberKind) (filter : Filter) :
    Runs (settling c) s (membersOf c type kinds filter) fun ids _ =>
      ids = ((staticGroups filter ++ instanceGroups filter).filter (kinds.has ·.kind)).flatMap
        fun group => (c.groupEntries filter hierarchy script group).map (·.1) := by
  obtain ⟨info, hi, isScript, -⟩ := id scriptAt
  have groups : (staticGroups filter ++ instanceGroups filter).filter
      (fun g => kinds.has g.kind && g.inTypes info) =
        (staticGroups filter ++ instanceGroups filter).filter (kinds.has ·.kind) :=
    List.filter_congr fun group among => by rw [inTypes_of_script isScript among, Bool.and_true]
  refine .known (typeInfo_eq hi) ?_
  dsimp only
  rw [groups]
  refine .bind (Runs.mapM (C := settling c) (fun _ => ([] : List Unit)) (fun _ => [])
    (Q := fun _ group ids => ids = (c.groupEntries filter hierarchy script group).map (·.1))
    (fun _ _ h => h) settled fun group _ t grows settled' => ?_) ?_
  · refine (runs_groupMembers firm settled' (scriptAt.extends grows.grown) ascends filter
      group).imp ?_
    exact fun ids u _ _ h => ⟨h, rfl⟩
  · rintro results t - settled' ⟨each, -⟩
    exact .pure settled' (by rw [eq_map_of_forall₂ each, List.flatMap_def])

/-- The members of a script type are those of its script. -/
theorem runs_membersOf (firm : c.Firm) (settled : s.Settled c)
    (scriptAt : s.ScriptAt script type) (kinds : FlagSet MemberKind) {filter : Filter}
    (whole : WholeFilter filter) :
    Runs (settling c) s (membersOf c type kinds filter) fun ids _ => ∀ id, id ∈ ids ↔
      ∃ symbol, c.Admits script kinds filter id symbol := by
  obtain ⟨hierarchy, ascends⟩ := exists_ascends firm settled scriptAt
  refine (runs_membersOf_groups firm settled scriptAt ascends kinds filter).imp ?_
  rintro _ t - - rfl id
  simp only [List.mem_flatMap, List.mem_filter, List.mem_map, mem_groupEntries ascends whole]
  constructor
  · rintro ⟨group, ⟨among, chosen⟩, ⟨_, symbol⟩, inGroup, rfl⟩
    exact ⟨symbol, group, among, chosen, inGroup⟩
  · rintro ⟨symbol, group, among, chosen, inGroup⟩
    exact ⟨group, ⟨among, chosen⟩, ⟨id, symbol⟩, inGroup, rfl⟩

/-- A type that is neither a script nor an array has no members, unless it is a struct of which
there is an instance. -/
theorem membersOf_plain (hi : s.types.get? type = some info) (notScript : info.isScript = false)
    (notArray : info.isArray = false) (kinds : FlagSet MemberKind) {filter : Filter}
    (unstructured : filter.has .ofInstance → info.isStruct = false) :
    membersOf c type kinds filter s = .ok ([], s) := by
  have none : (staticGroups filter ++ instanceGroups filter).filter
      (fun g => kinds.has g.kind && g.inTypes info) = [] := by
    refine List.filter_eq_nil_iff.2 fun group hgroup => ?_
    simp only [staticGroups, instanceGroups, List.mem_append, List.mem_cons, List.not_mem_nil,
      or_false, List.mem_ite_nil_right] at hgroup
    rcases hgroup with ((rfl | rfl) | ⟨-, rfl⟩) | ⟨instances, rfl | rfl | rfl | rfl | rfl⟩
    all_goals simp_all
  refine (bind_ok (typeInfo_eq hi)).trans ?_
  rw [none]
  rfl

/-- The symbol of an array type. -/
theorem symbol?_array (settled : s.Settled c) {element : String}
    (hi : s.types.get? type = some info) (array : info.form = .array element) :
    s.symbol? c info.symbol = some (ArrayMembers.arraySymbol element info.symbol.index) := by
  have foreign := (settled.infos hi).foreign (.inr (by simp [TypeInfo.isArray, array]))
  obtain ⟨start, rfl, block⟩ := settled.arrays hi array
  rw [symbol?_synthetic s foreign]
  exact block (i := 0) rfl

/-- The members of an array are symbols of the session. -/
theorem arrayMember_foreign (settled : s.Settled c) {element : String} {id : SymbolId}
    (hi : s.types.get? type = some info) (array : info.form = .array element)
    (member : id ∈ (ArrayMembers.arraySymbol element info.symbol.index).members) :
    ¬ c.symbols.owns id := by
  have above : s.synthetic.get? info.symbol =
      some (ArrayMembers.arraySymbol element info.symbol.index) := by
    rw [← symbol?_array settled hi array]
    exact (symbol?_synthetic s
      ((settled.infos hi).foreign (.inr (by simp [TypeInfo.isArray, array])))).symm
  exact (settled.members above member).1

/-- The members of an array are functions, but for its length. -/
theorem symbol?_arrayMember (settled : s.Settled c) {element : String} {id : SymbolId}
    (hi : s.types.get? type = some info) (array : info.form = .array element)
    (member : id ∈ (ArrayMembers.arraySymbol element info.symbol.index).members) :
    ∃ symbol, s.symbol? c id = some symbol ∧ symbol.declaration = none ∧
      (symbol.kind = .function ∨ symbol.kind = .property) := by
  have foreign := arrayMember_foreign settled hi array member
  obtain ⟨start, rfl, block⟩ := settled.arrays hi array
  obtain ⟨i, hi', rfl⟩ := List.mem_map.1 member
  rw [symbol?_synthetic s foreign]
  rcases ArrayMembers.getElem?_block element start hi' with ⟨signature, -, found⟩ | found
  · exact ⟨_, block found, rfl, .inl rfl⟩
  · exact ⟨_, block found, rfl, .inr rfl⟩

/-- The members of an array type are those of its symbol. -/
theorem membersOf_array (settled : s.Settled c) {element : String}
    (hi : s.types.get? type = some info) (array : info.form = .array element) :
    ∃ ids, membersOf c type MemberKind.anywhere .everything s = .ok (ids, s) ∧
      ∀ id, id ∈ ids ↔ id ∈ (ArrayMembers.arraySymbol element info.symbol.index).members := by
  let members := (ArrayMembers.arraySymbol element info.symbol.index).members
  have carried : ∀ id ∈ members, ∀ symbol, s.symbol? c id = some symbol → symbol.id = id := by
    intro id member symbol found
    rw [symbol?_synthetic s (arrayMember_foreign settled hi array member)] at found
    exact settled.numbered found
  have own (wanted : Symbol → Bool) :
      ownMembers c type wanted s = .ok (s.select c members wanted, s) := by
    refine (bind_ok (typeInfo_eq hi)).trans ((bind_ok (symbol?_eq c info.symbol s)).trans ?_)
    rw [symbol?_array settled hi array, ← selectNumbered_eq carried]
    rfl
  have group (g : MemberGroup) :
      groupMembers c type .everything g s = .ok ((s.select c members g.wanted).map (·.1), s) := by
    have inherited : inheritedMembers c type .everything g.wanted s =
        .ok (s.select c members g.wanted, s) := by
      refine (bind_ok (typeInfo_eq hi)).trans ?_
      rw [if_pos (by simp [TypeInfo.isScript, array])]
      exact own g.wanted
    unfold groupMembers
    split
    · exact bind_ok inherited
    · exact bind_ok (own g.wanted)
  refine ⟨_, (bind_ok (typeInfo_eq hi)).trans (bind_ok (mapM_ok fun g _ => group g)), fun id => ?_⟩
  rw [List.mem_flatten]
  constructor
  · rintro ⟨part, hpart, inside⟩
    obtain ⟨g, -, rfl⟩ := List.mem_map.1 hpart
    obtain ⟨entry, hentry, rfl⟩ := List.mem_map.1 inside
    exact (mem_select.1 hentry).1
  · intro member
    obtain ⟨symbol, hs, -, kind⟩ := symbol?_arrayMember settled hi array member
    have isArray : info.isArray := by simp [TypeInfo.isArray, array]
    obtain ⟨g, among, has, inTypes, wanted⟩ : ∃ g ∈ staticGroups .everything ++
        instanceGroups .everything, MemberKind.anywhere.has g.kind ∧ g.inTypes info ∧
          g.wanted symbol := by
      rcases kind with kind | kind
      · exact ⟨functionGroup .everything, functionGroup_mem _, by decide,
          by simp [functionGroup, isArray], by simp [functionGroup, kind, Filter.admits_function]⟩
      · refine ⟨_, List.mem_append_right _ (List.mem_of_getElem? (i := 2) rfl), by decide, ?_, ?_⟩
        · simp [isArray]
        · simp [kind, Filter.admits_property]
    refine ⟨_, List.mem_map_of_mem (List.mem_filter.2 ⟨among, ?_⟩), List.mem_map.2 ⟨(id, symbol),
      mem_select.2 ⟨member, hs, wanted⟩, rfl⟩⟩
    rw [has, inTypes]
    rfl

end Query

end PapyrusAnalysis
