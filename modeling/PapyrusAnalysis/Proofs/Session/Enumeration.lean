import Mathlib.Data.List.Flatten
import PapyrusAnalysis.Proofs.Session.Hierarchy
import PapyrusAnalysis.Proofs.Session.Membership

/-!
# How members are listed

The members of a script type are listed kind by kind in a fixed order. Those of one kind come from
the scripts of its hierarchy, the most derived one first, unless the kind is not inherited or only
what is declared is asked for. A look-up that flattens the hierarchy keeps the first member of each
name. No symbol is listed twice: the members of a script are different symbols, and no symbol is a
member of two scripts.

## Main definitions

* `MemberKind.listed`: the kinds of members in the order in which they are listed.
* `Filter.enables`, `Filter.wants`: the kinds of members that a filter lists, and which of them.
* `Codebase.ownMembers`: the members of a kind that a script has of its own.
* `Session.Enumerates`: how the members of a script type are listed.

## Main statements

* `Session.members_enumerated`: how the members of every script type are listed.
-/

namespace PapyrusAnalysis

namespace MemberKind

/-- The kinds of members in the order in which they are listed. -/
def listed : List MemberKind :=
  [.function, .struct, .customEvent, .event, .group, .property, .state, .var]

/-- The kind of the symbols that are members of a kind. -/
def symbolKind : MemberKind → SymbolKind
  | customEvent => .customEvent
  | event => .event
  | function => .function
  | group => .group
  | property => .property
  | state => .state
  | var => .var
  | struct => .struct

/-- Whether a script has the members of a kind that the scripts above it have. -/
def isInherited : MemberKind → Bool
  | struct | var => false
  | _ => true

theorem symbolKind_injective {kind kind' : MemberKind} (h : kind.symbolKind = kind'.symbolKind) :
    kind = kind' := by
  cases kind <;> cases kind' <;> first | rfl | cases h

theorem filter_has_singleton (kind : MemberKind) :
    listed.filter ({kind} : FlagSet MemberKind).has = [kind] := by
  cases kind <;> decide

end MemberKind

namespace Filter

/-- Whether members of a kind are listed at all. -/
def enables (filter : Filter) : MemberKind → Bool
  | .function | .struct => true
  | .customEvent => filter.has .global
  | _ => filter.has .ofInstance

/-- Whether a filter admits a symbol among the members of its kind. -/
def admits (filter : Filter) (symbol : Symbol) : Bool :=
  match symbol.kind with
  | .function => filter.admitsFunction symbol
  | .property => filter.admitsProperty symbol
  | .state => filter.admitsState symbol
  | _ => true

/-- Whether a symbol is of a kind and admitted. -/
def wants (filter : Filter) (kind : MemberKind) (symbol : Symbol) : Bool :=
  symbol.kind = kind.symbolKind && filter.admits symbol

variable {filter : Filter} {reach : LookupFlag}

theorem has_union_self (flag : LookupFlag) : (filter ∪ {flag}).has flag = true := by
  have alone : ({flag} : Filter).has flag = true := by cases flag <;> decide
  rw [FlagSet.has_union, alone, Bool.or_true]

theorem has_union_reach (h : reach = .declaredOnly ∨ reach = .flattenHierarchy)
    {flag : LookupFlag} (other : flag ≠ .declaredOnly) (other' : flag ≠ .flattenHierarchy) :
    (filter ∪ {reach}).has flag = filter.has flag := by
  have foreign : ({reach} : Filter).has flag = false := by
    rcases h with rfl | rfl <;> cases flag <;> first | contradiction | decide
  rw [FlagSet.has_union, foreign, Bool.or_false]

/-- How far a look-up goes has no part in what it admits. -/
theorem enables_union_reach (h : reach = .declaredOnly ∨ reach = .flattenHierarchy) :
    (filter ∪ {reach}).enables = filter.enables := by
  funext kind
  cases kind <;> simp [enables, has_union_reach h]

theorem wants_union_reach (h : reach = .declaredOnly ∨ reach = .flattenHierarchy) :
    (filter ∪ {reach}).wants = filter.wants := by
  funext kind symbol
  simp [wants, admits, admitsFunction, admitsProperty, admitsState, admitsScope, admitsNativity,
    admitsAuto, admitsAccess, has_union_reach h]

end Filter

/-! ## Lists of members -/

namespace Codebase

variable {c : Codebase} {filter : Filter} {hierarchy : List SymbolId} {script : SymbolId}
  {kind : MemberKind}

/-- The members of a kind that a script has of its own and that a filter admits. -/
def ownMembers (c : Codebase) (filter : Filter) (kind : MemberKind) (script : SymbolId) :
    List SymbolId :=
  (((c.symbols.get? script).map (·.members)).getD []).filter fun id =>
    (c.symbols.get? id).any (filter.wants kind)

theorem ownMembers_union_reach {reach : LookupFlag}
    (h : reach = .declaredOnly ∨ reach = .flattenHierarchy) :
    c.ownMembers (filter ∪ {reach}) = c.ownMembers filter := by
  funext kind script
  rw [ownMembers, Filter.wants_union_reach h, ownMembers]

/-- Whether two symbols have the same name, in any case. -/
def namedAlike (c : Codebase) (a b : SymbolId) : Bool :=
  (c.symbols.get? a).map (Text.lowercase ·.name) = (c.symbols.get? b).map (Text.lowercase ·.name)

/-- The members of a kind that are listed for a script. -/
def listedMembers (c : Codebase) (filter : Filter) (hierarchy : List SymbolId) (script : SymbolId)
    (kind : MemberKind) : List SymbolId :=
  if !filter.enables kind then []
  else if kind.isInherited && !filter.has .declaredOnly then
    let whole := hierarchy.flatMap (c.ownMembers filter kind)
    if filter.has .flattenHierarchy then whole.eraseDupsBy c.namedAlike else whole
  else c.ownMembers filter kind script

theorem listedMembers_inherited (inherited : kind.isInherited) (enabled : filter.enables kind)
    (whole : filter.has .declaredOnly = false) (flat : filter.has .flattenHierarchy = false) :
    c.listedMembers filter hierarchy script kind =
      hierarchy.flatMap (c.ownMembers filter kind) := by
  simp [listedMembers, inherited, enabled, whole, flat]

theorem listedMembers_flattened (inherited : kind.isInherited) (enabled : filter.enables kind)
    (whole : filter.has .declaredOnly = false) :
    c.listedMembers (filter ∪ {.flattenHierarchy}) hierarchy script kind =
      (hierarchy.flatMap (c.ownMembers filter kind)).eraseDupsBy c.namedAlike := by
  have whole : (filter ∪ {.flattenHierarchy}).has .declaredOnly = false := by
    rw [FlagSet.has_union, whole]
    decide
  simp [-FlagSet.has_union, listedMembers, inherited, whole, Filter.has_union_self,
    Filter.enables_union_reach (.inr rfl), enabled, ownMembers_union_reach (.inr rfl)]

theorem listedMembers_declared (enabled : filter.enables kind) :
    c.listedMembers (filter ∪ {.declaredOnly}) hierarchy script kind =
      c.ownMembers filter kind script := by
  simp [-FlagSet.has_union, listedMembers, Filter.has_union_self,
    Filter.enables_union_reach (.inl rfl), enabled, ownMembers_union_reach (.inl rfl)]

theorem listedMembers_own (alone : kind.isInherited = false) (enabled : filter.enables kind) :
    c.listedMembers filter hierarchy script kind = c.ownMembers filter kind script := by
  simp [listedMembers, alone, enabled]

theorem listedMembers_disabled (disabled : filter.enables kind = false) :
    c.listedMembers filter hierarchy script kind = [] := by
  simp [listedMembers, disabled]

/-- Kinds that a filter does not list add nothing. -/
theorem flatMap_listedMembers (kinds : List MemberKind) :
    (kinds.filter filter.enables).flatMap (c.listedMembers filter hierarchy script) =
      kinds.flatMap (c.listedMembers filter hierarchy script) := by
  induction kinds with
  | nil => rfl
  | cons kind kinds ih =>
    cases enabled : filter.enables kind with
    | true => rw [List.filter_cons_of_pos enabled, List.flatMap_cons, List.flatMap_cons, ih]
    | false =>
      rw [List.filter_cons_of_neg (by simp [enabled]), List.flatMap_cons, ih,
        listedMembers_disabled enabled, List.nil_append]

theorem map_entries (wanted : Symbol → Bool) : (c.entries wanted script).map (·.1) =
    (((c.symbols.get? script).map (·.members)).getD []).filter fun id =>
      (c.symbols.get? id).any wanted := by
  simp only [entries, List.map_filterMap, ← List.filterMap_eq_filter]
  refine List.filterMap_congr fun id _ => ?_
  cases hs : c.symbols.get? id with
  | none => simp [Option.guard, hs]
  | some symbol => cases h : wanted symbol <;> simp [Option.guard, hs, h]

/-- Leaving out what is shadowed keeps the first of each name. -/
theorem map_dropShadowed (seen : List String) {entries : List (SymbolId × Symbol)}
    (known : ∀ entry ∈ entries, c.symbols.get? entry.1 = some entry.2) :
    (dropShadowed seen entries).map (·.1) =
      ((entries.filter fun entry => !seen.contains (Text.lowercase entry.2.name)).map
        (·.1)).eraseDupsBy c.namedAlike := by
  induction entries generalizing seen with
  | nil => rfl
  | cons entry rest ih =>
    obtain ⟨id, symbol⟩ := entry
    have rest' : ∀ entry ∈ rest, c.symbols.get? entry.1 = some entry.2 := fun entry h =>
      known entry (List.mem_cons_of_mem _ h)
    have here : c.symbols.get? id = some symbol := known (id, symbol) (by simp)
    rw [dropShadowed]
    split
    · rename_i shadowed
      rw [ih seen rest', List.filter_cons_of_neg (by simpa using shadowed)]
    · rename_i first
      rw [List.filter_cons_of_pos (by simpa using first), List.map_cons, List.map_cons,
        List.eraseDupsBy_cons, ih _ rest', List.filter_map, List.filter_filter]
      congr 3
      refine List.filter_congr fun other ho => ?_
      simp only [Function.comp_apply, namedAlike, rest' other ho, here, Option.map_some,
        List.contains_cons]
      grind

theorem map_groupEntries {group : Query.MemberGroup} (enabled : filter.enables kind)
    (wanted : group.wanted = filter.wants kind) (inherited : group.inherited = kind.isInherited) :
    (c.groupEntries filter hierarchy script group).map (·.1) =
      c.listedMembers filter hierarchy script kind := by
  have own (script : SymbolId) : (c.entries (filter.wants kind) script).map (·.1) =
      c.ownMembers filter kind script := map_entries _
  have whole : (hierarchy.flatMap (c.entries (filter.wants kind))).map (·.1) =
      hierarchy.flatMap (c.ownMembers filter kind) := by
    rw [List.map_flatMap]
    exact List.flatMap_congr fun script _ => own script
  have known : ∀ entry ∈ hierarchy.flatMap (c.entries (filter.wants kind)),
      c.symbols.get? entry.1 = some entry.2 := by
    intro entry h
    obtain ⟨script, -, inside⟩ := List.mem_flatMap.1 h
    exact (mem_entries.1 inside).1.provides.get?
  simp only [groupEntries, listedMembers, enabled, wanted, inherited, Bool.not_true,
    Bool.false_eq_true, if_false]
  split
  · split
    · rw [map_dropShadowed [] known, ← whole]
      simp
    · exact whole
  · exact own script

end Codebase

/-! ## Groups of members -/

namespace Query

/-- The groups of members that are listed are those of the kinds that the filter lists. -/
theorem kinds_groups (filter : Filter) : (staticGroups filter ++ instanceGroups filter).map
    (·.kind) = MemberKind.listed.filter filter.enables := by
  unfold staticGroups instanceGroups
  cases global : filter.has .global <;> cases ofInstance : filter.has .ofInstance <;>
    simp [MemberKind.listed, List.filter_cons, Filter.enables, global, ofInstance]

theorem wanted_of_group {filter : Filter} {group : MemberGroup}
    (h : group ∈ staticGroups filter ++ instanceGroups filter) :
    group.wanted = filter.wants group.kind ∧ group.inherited = group.kind.isInherited := by
  simp only [staticGroups, instanceGroups, List.mem_append, List.mem_cons, List.not_mem_nil,
    or_false, List.mem_ite_nil_right] at h
  rcases h with ((rfl | rfl) | ⟨-, rfl⟩) | ⟨-, rfl | rfl | rfl | rfl | rfl⟩
  all_goals
    refine ⟨?_, rfl⟩
    funext symbol
    simp only [Filter.wants, Filter.admits, MemberKind.symbolKind]
    cases symbol.kind <;> simp

theorem enables_of_group {filter : Filter} {group : MemberGroup}
    (h : group ∈ staticGroups filter ++ instanceGroups filter) : filter.enables group.kind := by
  have listed := List.mem_map_of_mem (f := (·.kind)) h
  rw [kinds_groups] at listed
  exact (List.mem_filter.1 listed).2

open Session in
/-- The members of a script type are listed kind by kind. -/
theorem runs_membersOf_kinds {c : Codebase} {s : Session} {script : SymbolId} {type : TypeId}
    (firm : c.Firm) (settled : s.Settled c) (scriptAt : s.ScriptAt script type)
    {hierarchy : List SymbolId} (ascends : c.Ascends script [] hierarchy)
    (kinds : FlagSet MemberKind) (filter : Filter) :
    Runs (settling c) s (membersOf c type kinds filter) fun ids _ =>
      ids = (MemberKind.listed.filter kinds.has).flatMap
        (c.listedMembers filter hierarchy script) := by
  refine (runs_membersOf_groups firm settled scriptAt ascends kinds filter).imp ?_
  rintro _ t - - rfl
  have enabled : (MemberKind.listed.filter kinds.has).flatMap
      (c.listedMembers filter hierarchy script) =
        ((MemberKind.listed.filter filter.enables).filter kinds.has).flatMap
          (c.listedMembers filter hierarchy script) := by
    rw [List.filter_filter, List.filter_congr fun _ _ => Bool.and_comm _ _, ← List.filter_filter,
      Codebase.flatMap_listedMembers]
  rw [enabled, ← kinds_groups, List.filter_map, List.flatMap_map]
  refine List.flatMap_congr fun group h => ?_
  have there := (List.mem_filter.1 h).1
  obtain ⟨wanted, inherited⟩ := wanted_of_group there
  exact Codebase.map_groupEntries (enables_of_group there) wanted inherited

end Query

/-! ## No symbol is listed twice -/

theorem eraseDupsBy_sublist {α : Type} (r : α → α → Bool) (l : List α) :
    (l.eraseDupsBy r).Sublist l := by
  induction hn : l.length using Nat.strongRecOn generalizing l with
  | ind n ih =>
    cases l with
    | nil => exact List.Sublist.slnil
    | cons a l =>
      have shorter (p : α → Bool) : (l.filter p).length < n :=
        hn ▸ Nat.lt_succ_of_le (List.length_filter_le p l)
      rw [List.eraseDupsBy_cons]
      exact ((ih _ (shorter _) _ rfl).trans List.filter_sublist).cons_cons a

namespace Binding

theorem boundMemberNodes_sublist (t : Tree) (definitions : List NodeId) :
    (boundMemberNodes t definitions).Sublist (memberNodes t definitions) :=
  (List.filter_sublist.append (.flatMap_right _ fun _ _ => List.filter_sublist)).append
    (.flatMap_right _ fun _ _ => List.filter_sublist)

theorem within_of_memberNodes {t : Tree} (wf : t.WellFormed) {root header part : NodeId}
    {imports definitions : List NodeId}
    (hroot : t.formAt root = some (.script header imports definitions))
    (h : part ∈ memberNodes t definitions) : t.Within part root := by
  have below {d : NodeId} (hd : d ∈ definitions) : t.Within d root :=
    within_parent wf (parentAt_of_definition wf hroot hd)
  simp only [memberNodes, List.mem_append, List.mem_flatMap] at h
  rcases h with (hd | ⟨d, hd, hp⟩) | ⟨d, hd, hp⟩
  · exact below hd
  · exact (within_parent wf (parentAt_of_groupProperties wf hp)).trans wf.grown (below hd)
  · exact (within_parent wf (parentAt_of_stateDefinitions wf hp)).trans wf.grown (below hd)

end Binding

namespace Codebase

open Binding

variable {c : Codebase} {filter : Filter} {hierarchy : List SymbolId} {script other id : SymbolId}
  {symbol : Symbol} {kind kind' : MemberKind}

/-- A symbol has one declaration, and no two symbols have the same. -/
theorem Declares.biUnique (h : c.Declares) : Relator.BiUnique (DeclaredAt c.symbols) where
  left _ _ _ first second := h.symbols.eq_of_declaredAt h.nodup first second
  right := by
    rintro id node node' ⟨symbol, hs, hd⟩ ⟨symbol', hs', hd'⟩
    cases hs.symm.trans hs'
    exact Option.some.inj (hd.symm.trans hd')

/-- The members of a script are declared by definitions of the script, or of its groups and
states. -/
theorem Declares.parts_of_script (h : c.Declares) (hs : c.symbols.get? script = some symbol)
    (isScript : symbol.kind = .script) : ∃ (root header : NodeId) (imports definitions parts :
      List NodeId), c.tree.formAt root = some (.script header imports definitions) ∧
      DeclaredAt c.symbols script root ∧
      List.Forall₂ (DeclaredAt c.symbols) symbol.members parts ∧
      parts.Sublist (memberNodes c.tree definitions) := by
  obtain ⟨root, identifier, hd, hk, -⟩ := (h.symbols.fits hs).declared
  rw [isScript] at hk
  obtain ⟨n, hn⟩ := Tree.node?_of_declaration? hk
  have ofScript := Tree.isScript_of_declaration? hn hk
  cases hform : n.form with
  | script header imports definitions =>
    have hroot : c.tree.formAt root = some (.script header imports definitions) := by
      rw [Tree.formAt_eq hn, hform]
    refine ⟨root, header, imports, definitions, _, hroot, ⟨symbol, hs, hd⟩,
      (h.furnished hs).members hd (ownParts?_script hroot), ?_⟩
    split
    · exact boundMemberNodes_sublist _ _
    · exact List.nil_sublist _
  | _ => simp [hform, Form.isScript] at ofScript

/-- The members of a script are declared by different nodes within the node of the script. -/
theorem Declares.members_of_script (h : c.Declares) (hs : c.symbols.get? script = some symbol)
    (isScript : symbol.kind = .script) : ∃ root ∈ c.tree.roots, ∃ parts : List NodeId,
      DeclaredAt c.symbols script root ∧
      List.Forall₂ (DeclaredAt c.symbols) symbol.members parts ∧ parts.Nodup ∧
      ∀ part ∈ parts, c.tree.Within part root := by
  have wf := h.wellFormed
  obtain ⟨root, header, imports, definitions, parts, hroot, declared, all, sub⟩ :=
    h.parts_of_script hs isScript
  obtain ⟨n, hn, hform⟩ := Option.map_eq_some_iff.1 hroot
  exact ⟨root, wf.grown.mem_roots.2 ⟨n, hn, by rw [hform]; rfl⟩, parts, declared, all,
    (nodup_memberNodes wf hroot).sublist sub,
    fun part hp => within_of_memberNodes wf hroot (sub.subset hp)⟩

theorem Declares.nodup_members (h : c.Declares) (hs : c.symbols.get? script = some symbol)
    (isScript : symbol.kind = .script) : symbol.members.Nodup := by
  obtain ⟨root, -, parts, -, all, nodup, -⟩ := h.members_of_script hs isScript
  exact (List.rel_nodup h.biUnique all).2 nodup

/-- No symbol is a member of two scripts. -/
theorem Declares.script_eq_of_member (h : c.Declares) {symbol' : Symbol}
    (hs : c.symbols.get? script = some symbol) (isScript : symbol.kind = .script)
    (hs' : c.symbols.get? other = some symbol') (isScript' : symbol'.kind = .script)
    (hm : id ∈ symbol.members) (hm' : id ∈ symbol'.members) : script = other := by
  obtain ⟨root, inRoot, parts, declared, all, -, inside⟩ := h.members_of_script hs isScript
  obtain ⟨root', inRoot', parts', declared', all', -, inside'⟩ := h.members_of_script hs' isScript'
  obtain ⟨part, hp, made⟩ := exists_right_of_mem all hm
  obtain ⟨part', hp', made'⟩ := exists_right_of_mem all' hm'
  cases h.biUnique.right made made'
  cases root_eq_of_within h.wellFormed h.top inRoot inRoot' (inside part hp) (inside' part hp')
  exact h.biUnique.left declared declared'

theorem mem_ownMembers : id ∈ c.ownMembers filter kind script ↔
    ∃ above, c.symbols.get? script = some above ∧ id ∈ above.members ∧
      ∃ symbol, c.symbols.get? id = some symbol ∧ filter.wants kind symbol := by
  rw [ownMembers, List.mem_filter, Option.any_eq_true]
  cases c.symbols.get? script <;> simp

section Hierarchy

variable (scripts : ∀ a ∈ hierarchy, ∃ symbol, c.symbols.get? a = some symbol ∧
  symbol.kind = .script)

include scripts in
theorem Declares.nodup_inherited (h : c.Declares) (nodup : hierarchy.Nodup) :
    (hierarchy.flatMap (c.ownMembers filter kind)).Nodup := by
  refine List.nodup_flatMap.2 ⟨fun a ha => ?_, nodup.pairwise_of_forall_ne ?_⟩
  · obtain ⟨symbol, hs, isScript⟩ := scripts a ha
    rw [ownMembers, hs]
    exact (h.nodup_members hs isScript).filter _
  · intro a ha b hb differ id hm hm'
    obtain ⟨symbol, hs, isScript⟩ := scripts a ha
    obtain ⟨symbol', hs', isScript'⟩ := scripts b hb
    obtain ⟨above, hs₁, hm, -⟩ := mem_ownMembers.1 hm
    obtain ⟨above', hs₁', hm', -⟩ := mem_ownMembers.1 hm'
    cases hs.symm.trans hs₁
    cases hs'.symm.trans hs₁'
    exact differ (h.script_eq_of_member hs isScript hs' isScript' hm hm')

/-- What is listed comes from the scripts of the hierarchy. -/
theorem listedMembers_sublist (inside : script ∈ hierarchy) :
    (c.listedMembers filter hierarchy script kind).Sublist
      (hierarchy.flatMap (c.ownMembers filter kind)) := by
  rw [listedMembers]
  split
  · exact List.nil_sublist _
  split
  · split
    · exact eraseDupsBy_sublist _ _
    · exact List.Sublist.refl _
  · rw [← List.flatMap_singleton (c.ownMembers filter kind) script]
    exact (List.singleton_sublist.2 inside).flatMap _

include scripts in
/-- No symbol is listed twice, within a kind or across the kinds. -/
theorem Declares.nodup_listed (h : c.Declares) (nodup : hierarchy.Nodup)
    (inside : script ∈ hierarchy) {kinds : List MemberKind} (different : kinds.Nodup) :
    (kinds.flatMap (c.listedMembers filter hierarchy script)).Nodup := by
  refine List.nodup_flatMap.2 ⟨fun kind _ =>
    (h.nodup_inherited scripts nodup).sublist (listedMembers_sublist inside),
    different.pairwise_of_forall_ne ?_⟩
  intro kind _ kind' _ differ id hm hm'
  have ofKind {kind : MemberKind} (hm : id ∈ c.listedMembers filter hierarchy script kind) :
      ∃ symbol, c.symbols.get? id = some symbol ∧ symbol.kind = kind.symbolKind := by
    obtain ⟨a, -, own⟩ := List.mem_flatMap.1 ((listedMembers_sublist inside).subset hm)
    obtain ⟨-, -, -, symbol, hs, wanted⟩ := mem_ownMembers.1 own
    exact ⟨symbol, hs, of_decide_eq_true (Bool.and_eq_true_iff.1 wanted).1⟩
  obtain ⟨symbol, hs, hk⟩ := ofKind hm
  obtain ⟨symbol', hs', hk'⟩ := ofKind hm'
  cases hs.symm.trans hs'
  exact differ (MemberKind.symbolKind_injective (hk.symm.trans hk'))

end Hierarchy

end Codebase

/-! ## The members of a script type -/

namespace Session

variable {c : Codebase} {s : Session} {script : SymbolId} {type : TypeId} {filter : Filter}

/-- Asked for the members of a type, a session gives these. -/
def Shows (c : Codebase) (s : Session) (type : TypeId) (kinds : FlagSet MemberKind)
    (filter : Filter) (ids : List SymbolId) : Prop :=
  ∃ t, Query.membersOf c type kinds filter s = .ok (ids, t)

/-- How the members of the type of a script are listed. -/
structure Enumerates (c : Codebase) (s : Session) (type : TypeId) (script : SymbolId)
    (hierarchy : List SymbolId) (filter : Filter) : Prop where
  /-- The members that every script of the hierarchy has, one script after the other. -/
  inherited : ∀ kind, kind.isInherited → filter.enables kind → filter.has .declaredOnly = false →
    filter.has .flattenHierarchy = false →
    s.Shows c type {kind} filter (hierarchy.flatMap (c.ownMembers filter kind))
  /-- Of these the first of each name. -/
  flattened : ∀ kind, kind.isInherited → filter.enables kind → filter.has .declaredOnly = false →
    s.Shows c type {kind} (filter ∪ {.flattenHierarchy})
      ((hierarchy.flatMap (c.ownMembers filter kind)).eraseDupsBy c.namedAlike)
  declared : ∀ kind, filter.enables kind →
    s.Shows c type {kind} (filter ∪ {.declaredOnly}) (c.ownMembers filter kind script)
  own : ∀ kind, kind.isInherited = false → filter.enables kind →
    s.Shows c type {kind} filter (c.ownMembers filter kind script)
  disabled : ∀ kind, filter.enables kind = false → s.Shows c type {kind} filter []
  /-- What is listed for several kinds is what is listed for each, and nothing comes twice. -/
  joined : ∀ kinds : FlagSet MemberKind, ∃ parts : List (List SymbolId),
    List.Forall₂ (fun kind => s.Shows c type {kind} filter)
      (MemberKind.listed.filter kinds.has) parts ∧
    s.Shows c type kinds filter parts.flatten ∧ parts.flatten.Nodup

section Listed

variable {hierarchy : List SymbolId} (firm : c.Firm) (settled : s.Settled c)
  (scriptAt : s.ScriptAt script type) (ascends : c.Ascends script [] hierarchy)

include firm settled scriptAt ascends in
theorem Settled.shows (kinds : FlagSet MemberKind) (filter : Filter) :
    s.Shows c type kinds filter ((MemberKind.listed.filter kinds.has).flatMap
      (c.listedMembers filter hierarchy script)) := by
  obtain ⟨ids, t, run, -, -, rfl⟩ := Query.exists_ok_of_settling
    (Query.runs_membersOf_kinds firm settled scriptAt ascends kinds filter)
  exact ⟨t, run⟩

include firm settled scriptAt ascends in
theorem Settled.shows_single (kind : MemberKind) (filter : Filter) :
    s.Shows c type {kind} filter (c.listedMembers filter hierarchy script kind) := by
  have shown := settled.shows firm scriptAt ascends {kind} filter
  rwa [MemberKind.filter_has_singleton, List.flatMap_singleton] at shown

end Listed

/-- The members of a script type are listed kind by kind, along its hierarchy. -/
theorem members_enumerated (bound : c.Bound) (wf : c.tree.WellFormed) (top : c.tree.ScriptsOnTop)
    (apart : c.ScriptsApart) (arises : s.Arises c) (scriptAt : s.ScriptAt script type)
    (filter : Filter) : ∃ types t hierarchy, Query.scriptHierarchy c type s = .ok (types, t) ∧
      List.Forall₂ (fun x a => t.ScriptAt a x) types hierarchy ∧
      s.Enumerates c type script hierarchy filter := by
  have firm := bound.firm apart
  have settled := arises.settled firm
  obtain ⟨types, t, run, -, settled', hierarchy, all, ascends⟩ :=
    Query.exists_ok_of_settling (Query.runs_scriptHierarchy firm settled scriptAt)
  have single (kind : MemberKind) (filter : Filter) :=
    settled.shows_single firm scriptAt ascends kind filter
  have scripts : ∀ a ∈ hierarchy, ∃ symbol, c.symbols.get? a = some symbol ∧
      symbol.kind = .script := by
    intro a ha
    obtain ⟨x, -, scriptAt⟩ := exists_left_of_mem all ha
    exact settled'.exists_script scriptAt
  refine ⟨types, t, hierarchy, run, all, ?_, ?_, ?_, ?_, ?_, ?_⟩
  · intro kind inherited enabled whole flat
    exact Codebase.listedMembers_inherited inherited enabled whole flat ▸ single kind filter
  · intro kind inherited enabled whole
    exact Codebase.listedMembers_flattened inherited enabled whole ▸ single kind _
  · intro kind enabled
    exact Codebase.listedMembers_declared enabled ▸ single kind _
  · intro kind alone enabled
    exact Codebase.listedMembers_own alone enabled ▸ single kind filter
  · intro kind disabled
    exact Codebase.listedMembers_disabled disabled ▸ single kind filter
  · intro kinds
    refine ⟨_, List.forall₂_map_right_iff.2 (List.forall₂_same.2 fun kind _ => single kind filter),
      ?_, ?_⟩
    · exact settled.shows firm scriptAt ascends kinds filter
    · exact (bound.declares wf top).nodup_listed scripts ascends.nodup
        ((ascends.mem_iff script).2 .refl) (.filter _ (by decide))

/-- A function that is written anew in other letters:

    ScriptName A Extends B
    Function f()
    EndFunction

    ScriptName B
    Function F()
    EndFunction
    Function G()
    EndFunction -/
def overrideForms : List Form :=
  [.identifier "A", .identifier "B", .scriptHeader ⟨0⟩ (some ⟨1⟩) ∅,
    .identifier "f", .parameterList [], .functionHeader none ⟨3⟩ ⟨4⟩ ∅, .function ⟨5⟩ [],
    .script ⟨2⟩ [] [⟨6⟩],
    .identifier "B", .scriptHeader ⟨8⟩ none ∅,
    .identifier "F", .parameterList [], .functionHeader none ⟨10⟩ ⟨11⟩ ∅, .function ⟨12⟩ [],
    .identifier "G", .parameterList [], .functionHeader none ⟨14⟩ ⟨15⟩ ∅, .function ⟨16⟩ [],
    .script ⟨9⟩ [] [⟨13⟩, ⟨17⟩]]

theorem override_enumerated : ∃ (c : Codebase) (s : Session) (type : TypeId) (filter : Filter),
    c.tree = .ofForms overrideForms ∧ c.Bound ∧ c.tree.WellFormed ∧ c.tree.ScriptsOnTop ∧
    c.ScriptsApart ∧ s.Arises c ∧ s.ScriptAt ⟨0⟩ type ∧
    s.Shows c type {.function} filter [⟨1⟩, ⟨3⟩, ⟨4⟩] ∧
    s.Shows c type {.function} (filter ∪ {.flattenHierarchy}) [⟨1⟩, ⟨4⟩] ∧
    ∃ types t hierarchy, Query.scriptHierarchy c type s = .ok (types, t) ∧
      List.Forall₂ (fun x a => t.ScriptAt a x) types hierarchy ∧
      s.Enumerates c type ⟨0⟩ hierarchy filter := by
  let filter : Filter := {.ofInstance, .nonNative}
  obtain ⟨c, first, same, bound, wf, top, apart, started, fits⟩ :=
    Query.exists_started overrideForms
      (fun c first => ((Question.resolveType "A" []).ask c first).toOption.any
        fun (r : Unit × Session) => ((r.2.types.get? ⟨7⟩).any fun (info : TypeInfo) =>
            decide (info.isScript ∧ info.symbol = ⟨0⟩)) &&
          ((Query.membersOf c ⟨7⟩ {.function} filter r.2).toOption.any
            fun (q : List SymbolId × Session) => decide (q.1 = [⟨1⟩, ⟨3⟩, ⟨4⟩])) &&
          ((Query.membersOf c ⟨7⟩ {.function} (filter ∪ {.flattenHierarchy}) r.2).toOption.any
            fun (q : List SymbolId × Session) => decide (q.1 = [⟨1⟩, ⟨4⟩])))
      (by decide +kernel) (by decide +kernel) (by decide +kernel) (by decide +kernel)
  obtain ⟨⟨_, s⟩, asked, fits⟩ := exists_ok_of_any fits
  obtain ⟨fits, flat⟩ := Bool.and_eq_true_iff.1 fits
  obtain ⟨typed, whole⟩ := Bool.and_eq_true_iff.1 fits
  obtain ⟨info, hi, ofScript⟩ := (Option.any_eq_true _ _).1 typed
  obtain ⟨isScript, symbol⟩ := of_decide_eq_true ofScript
  have shows {filter : Filter} {ids : List SymbolId}
      (h : (Query.membersOf c ⟨7⟩ {.function} filter s).toOption.any
        fun (q : List SymbolId × Session) => decide (q.1 = ids)) :
      s.Shows c ⟨7⟩ {.function} filter ids := by
    obtain ⟨⟨found, t⟩, run, same⟩ := exists_ok_of_any h
    exact ⟨t, of_decide_eq_true same ▸ run⟩
  have arises : s.Arises c := ⟨first, started, .ask _ .refl asked⟩
  have scriptAt : s.ScriptAt ⟨0⟩ ⟨7⟩ := ⟨info, hi, isScript, symbol⟩
  exact ⟨c, s, ⟨7⟩, filter, same, bound, wf, top, apart, arises, scriptAt, shows whole, shows flat,
    members_enumerated bound wf top apart arises scriptAt filter⟩

end Session

end PapyrusAnalysis
