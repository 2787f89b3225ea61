import PapyrusAnalysis.Proofs.Session.Enumeration
import PapyrusAnalysis.Proofs.Session.Structs
import PapyrusAnalysis.Proofs.Text.Caseless

/-!
# Types and their qualified names

A type is known by its qualified name: looked up without any namespace, the name leads back to the
type. This takes that the structs stand directly in their scripts, since only the script in front of
the last colon is searched.

Two spellings of a name that are the same in lower case lead to the same type if the names of
scripts and structs differ in more than case. The names are compared as a whole here, but looked up
in two parts, each in lower case for itself. As the parts of a name may end in `σ` where the name
has `ς`, it is not enough that the names differ in lower case: the two sigmas have to be one letter.

## Main definitions

* `Codebase.Distinct`: the qualified names of scripts and structs differ in more than case.
* `Codebase.StructsDirect`: structs stand directly in scripts.

## Main statements

* `Session.Denotes.backed`: the qualified name of a type leads back to it.
* `Session.Denotes.unique`: names that are the same in lower case lead to the same type.
-/

namespace PapyrusAnalysis

/-- The definitions that stand directly in a script. -/
def Tree.scriptDefinitions (t : Tree) (root : NodeId) : List NodeId :=
  match t.formAt root with
  | some (.script _ _ definitions) => definitions
  | _ => []

theorem Tree.form_of_mem_definitions {t : Tree} {root node : NodeId}
    (h : node ∈ t.scriptDefinitions root) : ∃ header imports definitions,
      t.formAt root = some (.script header imports definitions) ∧ node ∈ definitions := by
  unfold scriptDefinitions at h
  split at h
  · exact ⟨_, _, _, by assumption, h⟩
  · cases h

namespace Codebase

open Binding

variable {c : Codebase} {script : SymbolId} {entry : SymbolId × Symbol}

/-- No two scripts or structs have the same qualified name, without regard to case. -/
def Distinct (c : Codebase) : Prop :=
  ∀ a b x y, c.symbols.get? a = some x → c.symbols.get? b = some y → namesType x → namesType y →
    Text.caseless x.qualifiedName = Text.caseless y.qualifiedName → a = b

theorem Distinct.unambiguous (h : c.Distinct) : c.Unambiguous :=
  fun a b x y hx hy names names' same => h a b x y hx hy names names' (Text.caseless_congr same)

instance : Decidable c.Distinct :=
  decidable_of_iff (∀ a ∈ c.symbols.ids, ∀ b ∈ c.symbols.ids, ∀ x ∈ c.symbols.get? a,
      ∀ y ∈ c.symbols.get? b, namesType x → namesType y →
        Text.caseless x.qualifiedName = Text.caseless y.qualifiedName → a = b)
    ⟨fun h a b x y hx hy => h a (SymbolTable.mem_ids.2 (SymbolTable.owns_of_get? hx)) b
        (SymbolTable.mem_ids.2 (SymbolTable.owns_of_get? hy)) x hx y hy,
      fun h a _ b _ x hx y hy => h a b x y hx hy⟩

/-- Every struct is a definition of a script itself, and not of one of its states. -/
def StructsDirect (c : Codebase) : Prop :=
  ∀ id symbol, c.symbols.get? id = some symbol → symbol.kind = .struct →
    ∃ root ∈ c.tree.roots, ∃ node ∈ c.tree.scriptDefinitions root, symbol.declaration = some node

instance : Decidable c.StructsDirect :=
  decidable_of_iff (∀ id ∈ c.symbols.ids, ∀ symbol ∈ c.symbols.get? id, symbol.kind = .struct →
      ∃ root ∈ c.tree.roots, ∃ node ∈ c.tree.scriptDefinitions root,
        symbol.declaration = some node)
    ⟨fun h id symbol hs => h id (SymbolTable.mem_ids.2 (SymbolTable.owns_of_get? hs)) symbol hs,
      fun h id _ symbol hs => h id symbol hs⟩

/-- A codebase whose tree is well-formed, with scripts on top, in which types are known by their
qualified names. -/
structure Legible (c : Codebase) : Prop where
  bound : c.Bound
  declares : c.Declares
  distinct : c.Distinct
  direct : c.StructsDirect

theorem Legible.firm (h : c.Legible) : c.Firm :=
  h.bound.firm h.distinct.unambiguous.scriptsApart

theorem Declares.defines_of_struct (h : c.Declares) {id : SymbolId} {symbol : Symbol}
    {node : NodeId} (hs : c.symbols.get? id = some symbol) (hd : symbol.declaration = some node)
    (kind : symbol.kind = .struct) : defines c.tree node := by
  obtain ⟨node', identifier, hd', hk, -⟩ := (h.symbols.fits hs).declared
  cases hd.symm.trans hd'
  obtain ⟨form, hform, isStruct⟩ := isWanted_iff.1 (h.housed hs hd kind).1
  have definition : c.tree.isWanted isDefinition node := by
    rw [isWanted_of_formAt hform]
    cases form <;> simp_all [Form.isStruct, isDefinition]
  simp [defines, hk, definition]

/-- A struct of a script stands below the script. -/
theorem Declares.parent_of_struct (h : c.Declares) (direct : c.StructsDirect)
    (has : c.HasStruct script entry) : entry.2.parent = some script := by
  obtain ⟨⟨above, hs, kind, member⟩, known, isStruct⟩ := has
  obtain ⟨root, isRoot, node, inside, hd⟩ := direct entry.1 entry.2 known isStruct
  obtain ⟨header, imports, definitions, hroot, defined⟩ := Tree.form_of_mem_definitions inside
  have made : DeclaredAt c.symbols entry.1 node := ⟨entry.2, known, hd⟩
  -- The script that defines the struct is the one that has it as a member.
  obtain ⟨root', isRoot', parts, ⟨above', hs', hd'⟩, all, -, within⟩ := h.members_of_script hs kind
  cases hs.symm.trans hs'
  obtain ⟨part, listed, made'⟩ := exists_right_of_mem all member
  cases h.biUnique.right made made'
  cases root_eq_of_within h.wellFormed h.top isRoot isRoot'
    (within_of_memberNodes h.wellFormed hroot (by simp [memberNodes, defined])) (within node listed)
  have named : hasName c.tree root := by
    have members := (h.furnished hs).members hd' (ownParts?_script hroot)
    by_contra unnamed
    rw [if_neg unnamed, List.forall₂_nil_right_iff] at members
    rw [members] at member
    cases member
  have own : node ∈ ownDefinitions c.tree root := by
    simp [ownDefinitions, hroot, defined, h.defines_of_struct known hd isStruct]
  obtain ⟨other, symbol, hs', hd'', parent⟩ := (h.furnished hs).definitions hd' named node own
  cases h.biUnique.left made ⟨symbol, hs', hd''⟩
  cases known.symm.trans hs'
  exact parent

/-- The qualified name of a struct is put together from the names of its script and its own. -/
theorem Legible.qualifiedName_eq (h : c.Legible) (has : c.HasStruct script entry) :
    ∃ above, c.symbols.get? script = some above ∧ above.kind = .script ∧
      entry.2.qualifiedName = above.name ++ ":" ++ entry.2.name := by
  have parent := h.declares.parent_of_struct h.direct has
  obtain ⟨⟨above, hs, kind, -⟩, known, -⟩ := has
  obtain ⟨above', hs', qualified⟩ := (h.firm.symbols.fits known).qualified script parent
  cases hs.symm.trans hs'
  have fits := h.firm.symbols.fits hs
  exact ⟨above, hs, kind, by rw [qualified, fits.bare (fits.top.1 kind)]⟩

end Codebase

theorem TypeInfo.isScript_of_form {info : TypeInfo} {table : Registry String TypeId}
    (h : info.form = .script table) : info.isScript := by
  rw [TypeInfo.isScript, h]

namespace Session

variable {c : Codebase} {s : Session} {name name' : String} {script : SymbolId}
  {type type' : TypeId} {info : TypeInfo} {table : Registry String TypeId}

theorem Settled.scriptType_eq (settled : s.Settled c) (firm : c.Firm)
    (scriptAt : s.ScriptAt script type) : Query.scriptType c script s = .ok (some type, s) := by
  obtain ⟨symbol, hs, kind⟩ := settled.exists_script scriptAt
  rw [Query.scriptType_eq, (symbol?_own s (SymbolTable.owns_of_get? hs)).trans hs]
  dsimp only
  rw [if_neg (by simp [kind]), if_neg (by simp [(firm.symbols.fits hs).genuine]),
    settled.entered scriptAt hs]

/-- A name that leads to a type is resolved to it, and nothing is made. -/
theorem Denotes.run (h : s.Denotes c name type) (firm : c.Firm) (settled : s.Settled c) :
    Query.resolveFullName c name s = .ok (some type, s) := by
  unfold Query.resolveFullName
  cases h with
  | intrinsic found => rw [found]; rfl
  | script foreign found scriptAt =>
    rw [foreign, found]
    exact settled.scriptType_eq firm scriptAt
  | struct foreign absent inside found known hf listed =>
    have made := settled.scriptType_eq firm ⟨_, known, TypeInfo.isScript_of_form hf, rfl⟩
    rw [foreign, absent]
    dsimp only
    rw [inside, found, if_neg (by simp)]
    refine (bind_ok made).trans ((bind_ok (Query.typeInfo_eq known)).trans ?_)
    rw [hf]
    exact congrArg (fun found => Except.ok (found, s)) listed

/-- What a name with a namespace leads to is the type of a struct with this name. -/
theorem Lodged.struct_found (lodged : s.Lodged c) (legible : c.Legible)
    (found : c.scripts.find? (QualifiedName.parse name).container = some info.symbol)
    (known : s.types.get? type = some info) (hf : info.form = .script table) {id : TypeId}
    (listed : table.find? (Text.lowercase (QualifiedName.parse name).name) = some id) :
    ∃ entry above, c.HasStruct info.symbol entry ∧ c.symbols.get? info.symbol = some above ∧
      entry.2.qualifiedName = above.name ++ ":" ++ entry.2.name ∧
      Text.lowercase above.name = Text.lowercase (QualifiedName.parse name).container ∧
      Text.lowercase entry.2.name = Text.lowercase (QualifiedName.parse name).name ∧
      s.types.get? id = some (structInfo type entry id) := by
  obtain ⟨entry, has, named, there⟩ := lodged.tables known hf listed
  obtain ⟨above, hs, kind, qualified⟩ := legible.qualifiedName_eq has
  obtain ⟨above', hs', -, same⟩ := legible.firm.scripts found
  cases hs.symm.trans hs'
  exact ⟨entry, above, has, hs, qualified, same, named, there⟩

/-- The qualified name of a type leads back to it. -/
theorem Denotes.backed (h : s.Denotes c name type) (legible : c.Legible) (lodged : s.Lodged c) :
    ∃ info, s.types.get? type = some info ∧ info.isArray = false ∧
      s.Denotes c info.qualifiedName type := by
  have firm := legible.firm
  cases h with
  | intrinsic found =>
    obtain ⟨kind, -, rfl⟩ := Option.map_eq_some_iff.1 found
    obtain ⟨info, hi, hf⟩ := lodged.intrinsic kind
    refine ⟨info, hi, by simp [TypeInfo.isArray, hf], .intrinsic ?_⟩
    rw [(lodged.infos hi).intrinsic hf]
    cases kind <;> decide
  | script foreign found scriptAt =>
    obtain ⟨symbol, hs, kind, same⟩ := firm.scripts found
    obtain ⟨info, hi, isScript, rfl⟩ := id scriptAt
    obtain ⟨symbol', hs', -, -, qualified⟩ := (lodged.infos hi).script isScript
    cases hs.symm.trans hs'
    have fits := firm.symbols.fits hs
    rw [fits.bare (fits.top.1 kind)] at qualified
    obtain ⟨table, hf⟩ := TypeInfo.form_of_script isScript
    refine ⟨info, hi, by simp [TypeInfo.isArray, hf], ?_⟩
    rw [qualified]
    exact .script ((Codebase.intrinsic?_congr same).trans foreign)
      ((legible.bound.find?_congr same).trans found) scriptAt
  | struct foreign absent inside found known hf listed =>
    obtain ⟨entry, above, has, hs, qualified, container, same, there⟩ :=
      lodged.struct_found legible found known hf listed
    have cut : QualifiedName.parse entry.2.qualifiedName = ⟨above.name, entry.2.name⟩ := by
      rw [qualified]
      refine QualifiedName.parse_qualified fun colon => ?_
      exact (QualifiedName.eq_qualified inside).2 ((Text.colon_mem_congr same).1 colon)
    refine ⟨_, there, rfl, .struct ?_ ?_ ?_ ?_ known hf ?_⟩
    · rw [show (structInfo _ entry _).qualifiedName = _ from qualified]
      exact TypeTable.intrinsic?_qualified above.name entry.2.name
    · -- A script with this name would be the struct.
      refine Option.eq_none_iff_forall_ne_some.2 fun other rival => ?_
      obtain ⟨symbol, hs', kind, alike⟩ := firm.scripts rival
      have fits := firm.symbols.fits hs'
      rw [← fits.bare (fits.top.1 kind)] at alike
      cases firm.apart other entry.1 symbol entry.2 hs' has.2.1 kind
        (by simp [Codebase.namesType, has.2.2]) alike
      cases hs'.symm.trans has.2.1
      cases kind.symm.trans has.2.2
    · rw [show QualifiedName.parse (structInfo _ entry _).qualifiedName = _ from cut]
      rw [← Text.isEmpty_lowercase, container, Text.isEmpty_lowercase, inside]
    · rw [show QualifiedName.parse (structInfo _ entry _).qualifiedName = _ from cut]
      exact (legible.bound.find?_congr container).trans found
    · rw [show QualifiedName.parse (structInfo _ entry _).qualifiedName = _ from cut, same]
      exact listed

/-- Names that are the same in lower case lead to the same type. -/
theorem Denotes.unique (h : s.Denotes c name type) (h' : s.Denotes c name' type')
    (legible : c.Legible) (lodged : s.Lodged c)
    (same : Text.lowercase name = Text.lowercase name') : type = type' := by
  have intrinsic := Codebase.intrinsic?_congr same
  have scripts := legible.bound.find?_congr same
  cases h with
  | intrinsic found =>
    rw [intrinsic] at found
    cases h' with
    | intrinsic found' => exact Option.some.inj (found.symm.trans found')
    | script foreign' | struct foreign' => cases found.symm.trans foreign'
  | script foreign found scriptAt =>
    rw [intrinsic] at foreign
    rw [scripts] at found
    cases h' with
    | intrinsic found' => cases foreign.symm.trans found'
    | script _ found' scriptAt' =>
      cases found.symm.trans found'
      exact lodged.type_unique scriptAt scriptAt'
    | struct _ absent' => cases found.symm.trans absent'
  | struct foreign absent inside found known hf listed =>
    rw [intrinsic] at foreign
    rw [scripts] at absent
    cases h' with
    | intrinsic found' => cases foreign.symm.trans found'
    | script _ found' => cases absent.symm.trans found'
    | struct _ _ inside' found' known' hf' listed' =>
      obtain ⟨entry, above, has, hs, qualified, container, named, -⟩ :=
        lodged.struct_found legible found known hf listed
      obtain ⟨entry', above', has', hs', qualified', container', named', -⟩ :=
        lodged.struct_found legible found' known' hf' listed'
      -- Both names are, without regard to case, those of the structs.
      have alike : Text.caseless entry.2.qualifiedName = Text.caseless entry'.2.qualifiedName := by
        rw [qualified, qualified', Text.caseless_qualified container named,
          Text.caseless_qualified container' named', ← (QualifiedName.eq_qualified inside).1,
          ← (QualifiedName.eq_qualified inside').1, Text.caseless_congr same]
      have one : entry.1 = entry'.1 := legible.distinct _ _ _ _ has.2.1 has'.2.1
        (by simp [Codebase.namesType, has.2.2]) (by simp [Codebase.namesType, has'.2.2]) alike
      have symbols : entry.2 = entry'.2 :=
        Option.some.inj (has.2.1.symm.trans ((congrArg _ one).trans has'.2.1))
      obtain ⟨⟨script, hscript, kind, member⟩, -⟩ := has
      obtain ⟨⟨script', hscript', kind', member'⟩, -⟩ := has'
      have home := legible.declares.script_eq_of_member hscript kind hscript' kind' member
        (one ▸ member')
      cases lodged.type_unique ⟨_, known, TypeInfo.isScript_of_form hf, rfl⟩
        ⟨_, known', TypeInfo.isScript_of_form hf', home.symm⟩
      cases known.symm.trans known'
      cases hf.symm.trans hf'
      rw [← named, symbols, named'] at listed
      exact Option.some.inj (listed.symm.trans listed')

end Session

end PapyrusAnalysis
