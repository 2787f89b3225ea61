import PapyrusAnalysis.Proofs.Session.Referents
import PapyrusAnalysis.Proofs.Session.Visibility

/-!
# Names behind a point

The name behind a point is looked for from the declaration of the type of the base, with all that
can be named there. So it leads to members of the type, but not only to them: it also leads to what
the imports of a script offer, to what surrounds a struct, and, if nothing has the name, to a type
with this name.

## Main definitions

* `Session.Finds`: what the name of a member of a type leads to.
* `Query.HasMember`: a type has a member.
* `Session.Strays`: a symbol that a name leads to though it is no member.
-/

namespace PapyrusAnalysis

/-! ## Deeper questions -/

namespace Inference

open Query

variable {c : Codebase} {k k' : Inference}

/-- Where one inference gives an answer, another one gives the same. -/
structure Refines (k k' : Inference) : Prop where
  typeOf : ∀ {node base s answer t}, k.typeOf node base s = .ok (answer, t) →
    k'.typeOf node base s = .ok (answer, t)
  symbolsFor : ∀ {identifier s answer t}, k.symbolsFor identifier s = .ok (answer, t) →
    k'.symbolsFor identifier s = .ok (answer, t)

theorem Asks.refines {α : Type} {f : Inference → Query α} (h : Asks c .any f)
    (refines : k.Refines k') {s t : Session} {a : α} (run : f k s = .ok (a, t)) :
    f k' s = .ok (a, t) := by
  induction h generalizing s t with
  | plain => exact run
  | typeOf => exact refines.typeOf run
  | symbolsFor => exact refines.symbolsFor run
  | bind _ _ first next =>
    obtain ⟨b, u, run, rest⟩ := bind_eq_ok run
    exact (bind_ok (first run)).trans (next b rest)
  | after _ known _ next =>
    obtain ⟨b, u, run, rest⟩ := bind_eq_ok run
    exact (bind_ok run).trans (next b (known trivial run) rest)

/-- More questions inside each other do not change an answer. -/
theorem atDepth_refines (c : Codebase) (depth : Nat) :
    (atDepth c depth).Refines (atDepth c (depth + 1)) := by
  induction depth with
  | zero =>
    refine ⟨fun {node base s answer t} run => ?_, fun {identifier s answer t} run => ?_⟩
    all_goals cases run
  | succ depth ih =>
    refine ⟨fun {node base s answer t} run => ?_, fun {identifier s answer t} run => ?_⟩
    · have shallow := findType_eq (c := c) (atDepth c depth) node base s
      have deep := findType_eq (c := c) (atDepth c (depth + 1)) node base s
      change (atDepth c depth).findType c node base s = _ at run
      change (atDepth c (depth + 1)).findType c node base s = _
      rw [shallow] at run
      rw [deep]
      split at run
      · rwa [if_pos (by assumption)]
      · obtain ⟨⟨type, u⟩, found, rest⟩ := exists_of_bind_eq_ok run
        rw [if_neg (by assumption), (Asks.formType Asks.declared_any Asks.owners_any
          (Asks.closed_any node base)).refines ih found]
        exact rest
    · exact (Asks.findSymbols Asks.owners_any fun _ _ => trivial).refines ih run

/-- The symbols for an identifier are found with the answers that every question gets. -/
theorem findSymbols_of_symbolsFor {identifier : NodeId} {s t : Session} {search : Search}
    (run : Query.symbolsFor c identifier s = .ok (search, t)) :
    c.inference.findSymbols c identifier s = .ok (search, t) := by
  obtain ⟨depth, hdepth⟩ := c.inference_eq
  rw [Query.symbolsFor, hdepth] at run
  rw [hdepth]
  exact (Asks.findSymbols Asks.owners_any fun _ _ => trivial).refines (atDepth_refines c depth) run

end Inference

/-! ## Declarations of types -/

namespace Tree

/-- A node around which there is no member access is a member of nothing. -/
theorem baseFor_of_around {t : Tree} {node : NodeId} (has : t.Has node)
    (around : ∀ a, t.Within node a → t.isWanted Form.isMemberAccess a = false) :
    t.baseFor node = .ok none := by
  obtain ⟨n, hn⟩ := has.node?
  rw [baseFor, lineage_eq (formAt_eq hn)]
  refine congrArg Except.ok (Option.eq_none_iff_forall_ne_some.2 fun base found => ?_)
  obtain ⟨id, hid, m, access, hm, hf⟩ := baseAmong_eq_some found
  have clear := around id (within_iff.2 ⟨has, List.mem_cons.1 hid⟩)
  rw [Binding.isWanted_of_formAt (formAt_eq hm), hf] at clear
  cases clear

end Tree

namespace Codebase

open Binding

variable {c : Codebase} {above id : SymbolId} {symbol : Symbol} {node container : NodeId}
  {kinds : FlagSet MemberKind}

/-- Around the declaration of a script there is nothing else, and around that of a struct there are
states and a script. -/
theorem Declares.around (h : c.Declares) (hs : c.symbols.get? above = some symbol)
    (hd : symbol.declaration = some node) (kind : symbol.kind = .script ∨ symbol.kind = .struct)
    (around : c.tree.Within node container) :
    c.tree.isWanted Form.isScript container ∧ (symbol.kind = .script → container = node) ∨
      symbol.kind = .struct ∧ (container = node ∧ c.tree.isWanted Form.isStruct node ∨
        c.tree.isWanted Form.isState container) := by
  rcases kind with kind | kind
  · obtain ⟨node', identifier, hd', hk, -⟩ := (h.symbols.fits hs).declared
    cases hd.symm.trans hd'
    rw [kind] at hk
    obtain ⟨n, hn⟩ := Tree.node?_of_declaration? hk
    have script := Tree.isScript_of_declaration? hn hk
    have alone : c.tree.parentAt node = none := (Tree.parentAt_eq hn).trans (h.top node n hn script)
    obtain ⟨-, rfl⟩ := (Tree.within_of_no_parent alone).1 around
    rw [isWanted_of_formAt (Tree.formAt_eq hn)]
    exact .inl ⟨script, fun _ => rfl⟩
  · obtain ⟨struct, root, housed⟩ := h.housed hs hd kind
    rcases housed.around h.wellFormed h.top around with rfl | rfl | state
    · exact .inr ⟨kind, .inl ⟨rfl, struct⟩⟩
    · obtain ⟨header, imports, definitions, definition, hf, -⟩ := housed
      refine .inl ⟨isWanted_of_formAt hf _, fun script => ?_⟩
      cases kind.symm.trans script
    · exact .inr ⟨kind, .inr state⟩

/-- The declaration of a script or struct is a member of nothing. -/
theorem Declares.unbased (h : c.Declares) (hs : c.symbols.get? above = some symbol)
    (hd : symbol.declaration = some node) (kind : symbol.kind = .script ∨ symbol.kind = .struct) :
    c.tree.Has node ∧ c.tree.baseFor node = .ok none := by
  obtain ⟨node', identifier, hd', hk, -⟩ := (h.symbols.fits hs).declared
  cases hd.symm.trans hd'
  obtain ⟨n, hn⟩ := Tree.node?_of_declaration? hk
  have has := Tree.has_of_node? hn
  refine ⟨has, Tree.baseFor_of_around has fun a around => ?_⟩
  have other {wanted : Form → Bool} (holds : c.tree.isWanted wanted a)
      (apart : ∀ form, wanted form → form.isMemberAccess = false) :
      c.tree.isWanted Form.isMemberAccess a = false := by
    obtain ⟨form, hf, wanted⟩ := isWanted_iff.1 holds
    exact (isWanted_of_formAt hf _).trans (apart form wanted)
  rcases h.around hs hd kind around with ⟨script, -⟩ | ⟨-, ⟨rfl, struct⟩ | state⟩
  · exact other script (by rintro ⟨⟩ <;> simp [Form.isScript, Form.isMemberAccess])
  · exact other struct (by rintro ⟨⟩ <;> simp [Form.isStruct, Form.isMemberAccess])
  · exact other state (by rintro ⟨⟩ <;> simp [Form.isState, Form.isMemberAccess])

/-- The script around the declaration of a script is the script itself. -/
theorem Declares.eq_of_encloses (h : c.Declares) (hs : c.symbols.get? above = some symbol)
    (hd : symbol.declaration = some node) (kind : symbol.kind = .script) {script : SymbolId}
    (encloses : c.Encloses script node) : script = above := by
  obtain ⟨root, around, isScript, hroot⟩ := encloses
  rcases h.around hs hd (.inl kind) around with ⟨-, same⟩ | ⟨struct, -⟩
  · rw [same kind] at hroot
    exact h.symbols.eq_of_declaredAt h.nodup ((h.symbols.symbolOf_iff h.nodup).1 hroot)
      ⟨symbol, hs, hd⟩
  · cases kind.symm.trans struct

end Codebase

/-! ## Members and strays -/

namespace TypeInfo

/-- The symbol of a type that is declared is that of a script or struct, as the type is. -/
theorem Fits.declared {c : Codebase} {s : Session} {info : TypeInfo} (h : info.Fits c s)
    (declared : info.isDeclared) : ∃ symbol, c.symbols.get? info.symbol = some symbol ∧
      (symbol.kind = .script ∧ info.isScript ∨ symbol.kind = .struct ∧ info.isStruct) := by
  rcases Bool.or_eq_true_iff.1 declared with script | struct
  · obtain ⟨symbol, hs, kind, -⟩ := h.script script
    exact ⟨symbol, hs, .inl ⟨kind, script⟩⟩
  · obtain ⟨symbol, hs, kind, -⟩ := h.struct struct
    exact ⟨symbol, hs, .inr ⟨kind, struct⟩⟩

end TypeInfo

namespace Session

/-- The symbol that a type belongs to has a member. -/
def Owns (c : Codebase) (s : Session) (type : TypeId) (id : SymbolId) : Prop :=
  ∃ info symbol, s.types.get? type = some info ∧ s.symbol? c info.symbol = some symbol ∧
    id ∈ symbol.members

/-- What the name of a member of a type leads to. -/
def Finds (c : Codebase) (s : Session) (info : TypeInfo) (name : String) (id : SymbolId) : Prop :=
  match info.form with
  | .intrinsic _ => False
  | .array element => id ∈ (ArrayMembers.arraySymbol element info.symbol.index).members ∧
      ∃ symbol, s.symbol? c id = some symbol ∧ Text.sameFolded name symbol.name
  | .script _ | .struct _ => ∃ symbol node kinds, c.symbols.get? info.symbol = some symbol ∧
      symbol.declaration = some node ∧ c.tree.memberKindsAt node = .ok kinds ∧
      s.Reaches c node kinds name id

theorem finds_declared {c : Codebase} {s : Session} {info : TypeInfo} {name : String}
    {id : SymbolId}
    (declared : info.isDeclared) : s.Finds c info name id ↔ ∃ symbol node kinds,
      c.symbols.get? info.symbol = some symbol ∧ symbol.declaration = some node ∧
      c.tree.memberKindsAt node = .ok kinds ∧ s.Reaches c node kinds name id := by
  unfold Finds
  split
  · simp_all [TypeInfo.isDeclared, TypeInfo.isScript, TypeInfo.isStruct]
  · simp_all [TypeInfo.isDeclared, TypeInfo.isScript, TypeInfo.isStruct]
  · rfl
  · rfl

theorem finds_iff_reaches {c : Codebase} {s : Session} {info : TypeInfo} {name : String}
    {id : SymbolId} {symbol : Symbol} {node : NodeId} {kinds : FlagSet MemberKind}
    (declared : info.isDeclared) (hs : c.symbols.get? info.symbol = some symbol)
    (hd : symbol.declaration = some node) (hkinds : c.tree.memberKindsAt node = .ok kinds) :
    s.Finds c info name id ↔ s.Reaches c node kinds name id := by
  rw [finds_declared declared]
  constructor
  · rintro ⟨symbol', node', kinds', hs', hd', hkinds', reaches⟩
    cases hs.symm.trans hs'
    cases hd.symm.trans hd'
    cases hkinds.symm.trans hkinds'
    exact reaches
  · exact fun reaches => ⟨symbol, node, kinds, hs, hd, hkinds, reaches⟩

/-- A name leads to a symbol from the declaration of a script or struct though the symbol is no
member of the type. -/
inductive Strays (c : Codebase) (s : Session) (node : NodeId) (name : String) (id : SymbolId) :
    Prop where
  /-- The name stands for the script itself. -/
  | self (h : Text.sameFolded name "self") (around : Query.scriptAround c node s = .ok (some id, s))
  /-- The name stands for the script that the script extends. -/
  | parent {script : SymbolId} {symbol : Symbol} {extended : String}
      (h : Text.sameFolded name "parent")
      (around : Query.scriptAround c node s = .ok (some script, s))
      (known : c.symbols.get? script = some symbol)
      (extending : symbol.extendedScript = some extended)
      (found : c.scripts.find? extended = some id)
  /-- A state around a struct keeps the name. -/
  | ofState {state : NodeId} (struct : c.tree.isWanted Form.isStruct node)
      (around : c.tree.Within node state) (isState : c.tree.isWanted Form.isState state)
      (kept : id ∈ (c.symbols.names .locals state).values)
  /-- The script around a struct has a member with the name. -/
  | ofScript {script : SymbolId} {symbol : Symbol} (struct : c.tree.isWanted Form.isStruct node)
      (around : c.Encloses script node) (member : c.Provides script id symbol)
      (called : Text.sameFolded name symbol.name)
  /-- The script imports a global function or a struct with the name. -/
  | imported {script other : SymbolId} {symbol : Symbol} (around : c.Encloses script node)
      (imports : c.Imports script other) (member : c.Provides other id symbol)
      (called : Text.sameFolded name symbol.name)
      (offered : symbol.kind = .struct ∨ symbol.kind = .function ∧ symbol.isGlobal)
  /-- The name is the full name of a type. -/
  | typeName (named : Query.TypeNamed c s name id)

end Session

namespace Query

open Session

/-- A type has a member: a struct its variables, a script the members of the scripts in its
hierarchy and an array those that all arrays have. -/
def HasMember (c : Codebase) (s : Session) (type : TypeId) (info : TypeInfo) (id : SymbolId) :
    Prop :=
  match info.form with
  | .intrinsic _ => False
  | .struct _ => s.Owns c type id ∧ ∃ symbol, s.symbol? c id = some symbol ∧ symbol.kind = .var
  | .script _ => ∃ types t, scriptHierarchy c type s = .ok (types, t) ∧ ∃ x ∈ types, t.Owns c x id
  | .array element => s.Owns c type id ∧
      id ∈ (ArrayMembers.arraySymbol element info.symbol.index).members

variable {c : Codebase} {s : Session} {type : TypeId} {info : TypeInfo} {id : SymbolId}
  {symbol : Symbol} {name : String}

/-- What a script offers to those that import it. -/
theorem offered_of_admits {script : SymbolId} {kinds : FlagSet MemberKind}
    (h : c.Admits script (Codebase.importedKinds kinds) .globals id symbol) :
    symbol.kind = .struct ∨ symbol.kind = .function ∧ symbol.isGlobal := by
  obtain ⟨group, among, has, -, wanted⟩ := h
  have never : Filter.globals.has .ofInstance = false := by decide
  simp only [staticGroups, instanceGroups, never, List.mem_append, List.mem_cons, List.not_mem_nil,
    or_false, List.mem_ite_nil_right, Bool.false_eq_true, if_false] at among
  rcases among with (rfl | rfl) | ⟨-, rfl⟩
  · obtain ⟨kind, admits⟩ := Bool.and_eq_true_iff.1 wanted
    refine .inr ⟨of_decide_eq_true kind, ?_⟩
    have scope := (Bool.and_eq_true_iff.1 admits).1
    rw [Filter.admitsScope, never] at scope
    split at scope
    · assumption
    · cases scope
  · exact .inl (of_decide_eq_true wanted)
  · have none : ({.function} : FlagSet MemberKind).has .customEvent = false := by decide
    have none' : ({.struct} : FlagSet MemberKind).has .customEvent = false := by decide
    simp [Codebase.importedKinds, none, none'] at has

/-- What a script provides is found in its hierarchy. -/
theorem hasMember_of_provides (firm : c.Firm) (settled : s.Settled c)
    (hi : s.types.get? type = some info) (isScript : info.isScript)
    (h : c.Provides info.symbol id symbol) : HasMember c s type info id := by
  obtain ⟨ancestor, inherits, found, hs, member, -⟩ := h
  have hierarchy := runs_scriptHierarchy firm settled ⟨info, hi, isScript, rfl⟩
  cases hierarchy with
  | fault _ tolerated => exact tolerated.elim
  | @done types t run _ _ holds =>
    obtain ⟨ancestors, all, ascends⟩ := holds
    obtain ⟨x, hx, above, ha, -, rfl⟩ :=
      exists_left_of_mem all ((ascends.mem_iff ancestor).2 inherits)
    have owns : t.Owns c x id :=
      ⟨above, found, ha, (symbol?_own t (SymbolTable.owns_of_get? hs)).trans hs, member⟩
    obtain ⟨structs, hf⟩ := TypeInfo.form_of_script isScript
    rw [HasMember, hf]
    exact ⟨types, t, run, x, hx, owns⟩

/-- What can be named at the declaration of a script or struct is a member of the type or strays. -/
theorem visible_member_or_stray (declares : c.Declares) (firm : c.Firm) (settled : s.Settled c)
    {above : Symbol} {node : NodeId} {kinds : FlagSet MemberKind}
    (hi : s.types.get? type = some info) (hs : c.symbols.get? info.symbol = some above)
    (hd : above.declaration = some node) (kind : above.kind = .script ∧ info.isScript ∨
      above.kind = .struct ∧ info.isStruct) (called : Text.sameFolded name symbol.name)
    (visible : c.Visible kinds node id symbol) :
    HasMember c s type info id ∨ s.Strays c node name id := by
  have ofType : above.kind = .script ∨ above.kind = .struct := kind.imp And.left And.left
  cases visible with
  | kept around keeps =>
    rcases declares.around hs hd ofType around with ⟨script, -⟩ | ⟨struct, ⟨rfl, -⟩ | state⟩
    · cases (firm.symbols.not_script_of_kept keeps.1).symm.trans script
    · obtain ⟨member, found, known, var⟩ := declares.member_of_kept hs hd struct keeps.1
      have own {id : SymbolId} {symbol : Symbol} (h : c.symbols.get? id = some symbol) :
          s.symbol? c id = some symbol := (symbol?_own s (SymbolTable.owns_of_get? h)).trans h
      have isStruct : info.isStruct := by
        rcases kind with ⟨script, -⟩ | ⟨-, isStruct⟩
        · cases script.symm.trans struct
        · exact isStruct
      obtain ⟨script, hf⟩ := TypeInfo.form_of_struct isStruct
      rw [HasMember, hf]
      exact .inl ⟨⟨info, above, hi, own hs, member⟩, found, own known, var⟩
    · exact .inr (.ofState (declares.housed hs hd struct).1 around state keeps.1)
  | shown encloses shows =>
    rcases shows with admitted | ⟨other, imports, admitted⟩
    · rcases kind with ⟨script, isScript⟩ | ⟨struct, -⟩
      · cases declares.eq_of_encloses hs hd script encloses
        exact .inl (hasMember_of_provides firm settled hi isScript admitted.provides)
      · exact .inr (.ofScript (declares.housed hs hd struct).1 encloses admitted.provides called)
    · exact .inr (.imported encloses imports admitted.provides called (offered_of_admits admitted))

/-- What the name of a member leads to is a member of the type, or strays from the declaration of a
script or struct. -/
theorem finds_member_or_stray (declares : c.Declares) (firm : c.Firm) (settled : s.Settled c)
    (hi : s.types.get? type = some info) (h : s.Finds c info name id) :
    HasMember c s type info id ∨ ∃ above node, c.symbols.get? info.symbol = some above ∧
      above.declaration = some node ∧ s.Strays c node name id := by
  have ofDeclared (declared : info.isDeclared) : HasMember c s type info id ∨ ∃ above node,
      c.symbols.get? info.symbol = some above ∧ above.declaration = some node ∧
        s.Strays c node name id := by
    obtain ⟨above, node, kinds, hs, hd, -, reaches⟩ := (finds_declared declared).1 h
    obtain ⟨above', hs', kind⟩ := (settled.infos hi).declared declared
    cases hs.symm.trans hs'
    cases reaches with
    | self self around => exact .inr ⟨above, node, hs, hd, .self self around⟩
    | parent parent around known extending found =>
      exact .inr ⟨above, node, hs, hd, .parent parent around known extending found⟩
    | symbol _ _ visible called =>
      refine (visible_member_or_stray declares firm settled hi hs hd kind called
        visible).imp_right ?_
      exact fun stray => ⟨above, node, hs, hd, stray⟩
    | typeName _ _ _ named => exact .inr ⟨above, node, hs, hd, .typeName named⟩
  cases hf : info.form with
  | intrinsic kind =>
    rw [Finds, hf] at h
    exact h.elim
  | array element =>
    rw [Finds, hf] at h
    rw [HasMember, hf]
    exact .inl ⟨⟨info, _, hi, symbol?_array settled hi hf, h.1⟩, h.1⟩
  | script structs => exact ofDeclared (by simp [TypeInfo.isDeclared, TypeInfo.isScript, hf])
  | struct script => exact ofDeclared (by simp [TypeInfo.isDeclared, TypeInfo.isStruct, hf])

end Query

/-! ## Looking for a member -/

namespace Inference

open Query Session

variable {c : Codebase} {k : Inference} {s : Session} {type : TypeId} {info : TypeInfo}

theorem runs_membersOfArray (settled : s.Settled c) {element : String}
    (hi : s.types.get? type = some info) (hf : info.form = .array element) (name : String) :
    Runs (settling c) s (do withName c name (← membersOf c type MemberKind.anywhere .everything))
      fun ids t => ∀ id, id ∈ ids ↔ t.Finds c info name id := by
  obtain ⟨ids, run, members⟩ := membersOf_array settled hi hf
  refine .known run (.done (withName_eq c name ids s) ((settling c).refl s) settled fun id => ?_)
  rw [Finds, hf, List.mem_map]
  dsimp only
  rw [← members]
  constructor
  · rintro ⟨entry, hentry, rfl⟩
    obtain ⟨member, known, called⟩ := mem_select.1 hentry
    exact ⟨member, entry.2, known, called⟩
  · rintro ⟨member, symbol, known, called⟩
    exact ⟨(id, symbol), mem_select.2 ⟨member, known, called⟩, rfl⟩

/-- What the name of a member of a type leads to. -/
theorem runs_membersNamed (declares : c.Declares) (firm : c.Firm) (settled : s.Settled c)
    (hi : s.types.get? type = some info) (name : String) :
    Runs (settling c) s (k.membersNamed c type name) fun ids t => ∀ id, id ∈ ids ↔
      t.Finds c info name id := by
  rw [Asks.membersNamed_eq]
  refine .known ((bind_ok (typeInfo_eq hi)).trans (symbol?_eq c info.symbol s)) ?_
  have ofDeclared (declared : info.isDeclared) :
      Runs (settling c) s (Asks.membersThrough k c type name (s.symbol? c info.symbol))
        fun ids t => ∀ id, id ∈ ids ↔ t.Finds c info name id := by
    obtain ⟨symbol, hs, kind⟩ := (settled.infos hi).declared declared
    have ofType : symbol.kind = .script ∨ symbol.kind = .struct := kind.imp And.left And.left
    obtain ⟨node, identifier, hd, -⟩ := (firm.symbols.fits hs).declared
    obtain ⟨has, unbased⟩ := declares.unbased hs hd ofType
    obtain ⟨kinds, hkinds⟩ := Tree.memberKindsAt_eq_ok has
    rw [symbol?_own s (SymbolTable.owns_of_get? hs), hs, Asks.membersThrough,
      if_neg (by rcases ofType with h | h <;> simp [h]), hd]
    refine (runs_matching firm settled has unbased hkinds name).imp fun ids t _ _ reached id => ?_
    rw [reached, finds_iff_reaches declared hs hd hkinds]
  cases hf : info.form with
  | intrinsic kind =>
    obtain ⟨symbol, hs, intrinsic, -⟩ := settled.types hi
    rw [hs, Asks.membersThrough, if_pos (intrinsic (by simp [TypeInfo.isIntrinsic, hf]))]
    exact .pure settled fun id => by simp [Finds, hf]
  | array element =>
    rw [symbol?_array settled hi hf]
    exact runs_membersOfArray settled hi hf name
  | script structs => exact ofDeclared (by simp [TypeInfo.isDeclared, TypeInfo.isScript, hf])
  | struct script => exact ofDeclared (by simp [TypeInfo.isDeclared, TypeInfo.isStruct, hf])

end Inference

namespace Query

open Inference Session

variable {c : Codebase} {s t u : Session}

/-- Behind a point the members of the type before it are looked for. -/
theorem membersNamed_of_symbolsFor {identifier base : NodeId} {name : String}
    (based : c.tree.baseFor identifier = .ok (some base))
    (named : c.tree.nameOf identifier = .ok (some name)) {type : TypeId} {search : Search}
    (typed : typeOf c base s = .ok (some type, t))
    (found : symbolsFor c identifier s = .ok (search, u)) :
    search.base = some base ∧ c.inference.membersNamed c type name t = .ok (search.symbols, u) := by
  have run := findSymbols_of_symbolsFor found
  rw [findSymbols_based named based] at run
  obtain ⟨answer, t', asked, rest⟩ := bind_eq_ok run
  cases typed.symm.trans asked
  obtain ⟨ids, v, members, last⟩ := bind_eq_ok rest
  cases last
  exact ⟨rfl, members⟩

/-- What the name behind a point leads to is settled by the type of what stands before the point.
It is a member of the type, unless it strays from the declaration of a script or struct. -/
theorem found_behind_point (bound : c.Bound) (wf : c.tree.WellFormed) (top : c.tree.ScriptsOnTop)
    (apart : c.ScriptsApart) (arises : s.Arises c) {identifier base : NodeId} {name : String}
    (based : c.tree.baseFor identifier = .ok (some base))
    (named : c.tree.nameOf identifier = .ok (some name)) {type : TypeId} {search : Search}
    (typed : typeOf c base s = .ok (some type, t))
    (found : symbolsFor c identifier s = .ok (search, u)) :
    search.base = some base ∧ ∃ info, u.types.get? type = some info ∧
      (∀ id, id ∈ search.symbols ↔ u.Finds c info name id) ∧
      ∀ id ∈ search.symbols, HasMember c u type info id ∨ ∃ above node,
        c.symbols.get? info.symbol = some above ∧ above.declaration = some node ∧
          u.Strays c node name id := by
  have firm := bound.firm apart
  have declares := bound.declares wf top
  have settled := ((steps_settling firm).typeOf base (arises.settled firm) typed).2
  obtain ⟨same, members⟩ := membersNamed_of_symbolsFor based named typed found
  obtain ⟨info, hi⟩ : ∃ info, t.types.get? type = some info := by
    obtain ⟨info, t', known, -⟩ := bind_eq_ok members
    exact ⟨info, (typeInfo_eq_ok known).2⟩
  obtain ⟨grows, settled', finds⟩ := (runs_membersNamed declares firm settled hi name).of_ok members
  have hi' := grows.grown.types hi
  refine ⟨same, info, hi', finds, fun id hid => ?_⟩
  exact finds_member_or_stray declares firm settled' hi' ((finds id).1 hid)

/-- A program of some forms for which a test of its first session succeeds. -/
theorem exists_started (forms : List Form) (test : Codebase → Session → Bool)
    (descending : (Tree.ofForms forms).Descending) (once : (Tree.ofForms forms).UsesOnce)
    (top : (Tree.ofForms forms).ScriptsOnTop)
    (h : (Program.ofTree (.ofForms forms)).toOption.any fun p =>
      decide (p.tree = .ofForms forms ∧ forms.length ≤ NodeId.limit ∧ p.codebase.Unambiguous) &&
        (Session.start p.codebase).toOption.any (test p.codebase)) :
    ∃ (c : Codebase) (s : Session), c.tree = .ofForms forms ∧ c.Bound ∧ c.tree.WellFormed ∧
      c.tree.ScriptsOnTop ∧ c.ScriptsApart ∧ Session.start c = .ok s ∧ test c s := by
  obtain ⟨p, run, fits⟩ := exists_ok_of_any h
  obtain ⟨settings, fits⟩ := Bool.and_eq_true_iff.1 fits
  obtain ⟨same, few, unambiguous⟩ := of_decide_eq_true settings
  obtain ⟨s, started, passes⟩ := exists_ok_of_any fits
  have tree : p.codebase.tree = .ofForms forms := same
  have wf : p.codebase.tree.WellFormed := tree ▸ ⟨Tree.grown_ofForms few, descending, once⟩
  exact ⟨p.codebase, s, tree, .program run, wf, tree ▸ top,
    Codebase.Unambiguous.scriptsApart unambiguous, started, passes⟩

theorem exists_session (forms : List Form) (test : Codebase → Session → Bool)
    (descending : (Tree.ofForms forms).Descending) (once : (Tree.ofForms forms).UsesOnce)
    (top : (Tree.ofForms forms).ScriptsOnTop)
    (h : (Program.ofTree (.ofForms forms)).toOption.any fun p =>
      decide (p.tree = .ofForms forms ∧ forms.length ≤ NodeId.limit ∧ p.codebase.Unambiguous) &&
        (Session.start p.codebase).toOption.any (test p.codebase)) :
    ∃ (c : Codebase) (s : Session), c.tree = .ofForms forms ∧ c.Bound ∧ c.tree.WellFormed ∧
      c.tree.ScriptsOnTop ∧ c.ScriptsApart ∧ s.Arises c ∧ test c s := by
  obtain ⟨c, s, same, bound, wf, onTop, apart, started, passes⟩ :=
    exists_started forms test descending once top h
  exact ⟨c, s, same, bound, wf, onTop, apart, ⟨s, started, .refl⟩, passes⟩

/-- A variable of a struct of which two members are asked for. One of them is a variable of the
script:

    ScriptName A
    Struct S
      Int V
    EndStruct
    Int W
    Function F()
      S x
      x.V
      x.W
    EndFunction -/
def leakForms : List Form :=
  [.identifier "A", .scriptHeader ⟨0⟩ none ∅,
    .identifier "S", .identifier "Int", .typeName ⟨3⟩ false, .identifier "V",
    .variableDefinition ⟨4⟩ ⟨5⟩ none ∅, .struct ⟨2⟩ [⟨6⟩],
    .identifier "Int", .typeName ⟨8⟩ false, .identifier "W", .variableDefinition ⟨9⟩ ⟨10⟩ none ∅,
    .identifier "F", .parameterList [], .functionHeader none ⟨12⟩ ⟨13⟩ ∅,
    .identifier "S", .typeName ⟨15⟩ false, .identifier "x", .declaration ⟨16⟩ ⟨17⟩ none,
    .identifier "x", .reference ⟨19⟩, .identifier "V", .reference ⟨21⟩, .memberAccess ⟨20⟩ ⟨22⟩,
    .expressionStatement ⟨23⟩,
    .identifier "x", .reference ⟨25⟩, .identifier "W", .reference ⟨27⟩, .memberAccess ⟨26⟩ ⟨28⟩,
    .expressionStatement ⟨29⟩,
    .function ⟨14⟩ [⟨18⟩, ⟨24⟩, ⟨30⟩], .script ⟨1⟩ [] [⟨7⟩, ⟨11⟩, ⟨31⟩]]

theorem member_behind_point : ∃ (c : Codebase) (s t u : Session) (type : TypeId) (search : Search),
    c.tree = .ofForms leakForms ∧ c.Bound ∧ c.tree.WellFormed ∧ c.tree.ScriptsOnTop ∧
    c.ScriptsApart ∧ s.Arises c ∧ c.tree.baseFor ⟨21⟩ = .ok (some ⟨20⟩) ∧
    c.tree.nameOf ⟨21⟩ = .ok (some "V") ∧ typeOf c ⟨20⟩ s = .ok (some type, t) ∧
    symbolsFor c ⟨21⟩ s = .ok (search, u) ∧ search.symbols.length = 1 ∧
    ∃ info, u.types.get? type = some info ∧ info.isStruct ∧
      ∀ id ∈ search.symbols, HasMember c u type info id ∨ ∃ above node,
        c.symbols.get? info.symbol = some above ∧ above.declaration = some node ∧
          u.Strays c node "V" id := by
  obtain ⟨c, s, same, bound, wf, top, apart, arises, fits⟩ := exists_session leakForms
    (fun c s =>
      (typeOf c ⟨20⟩ s).toOption.any fun (r : Option TypeId × Session) =>
        (symbolsFor c ⟨21⟩ s).toOption.any fun (q : Search × Session) =>
          decide (q.1.symbols.length = 1) && r.1.any fun type =>
            (q.2.types.get? type).any TypeInfo.isStruct)
    (by decide +kernel) (by decide +kernel) (by decide +kernel) (by decide +kernel)
  obtain ⟨⟨answer, t⟩, typed, fits⟩ := exists_ok_of_any fits
  obtain ⟨⟨search, u⟩, found, fits⟩ := exists_ok_of_any fits
  obtain ⟨one, fits⟩ := Bool.and_eq_true_iff.1 fits
  obtain ⟨type, answered, typeFits⟩ := (Option.any_eq_true _ _).1 fits
  obtain rfl : answer = some type := answered
  obtain ⟨info, hi, struct⟩ := (Option.any_eq_true _ _).1 typeFits
  have based : c.tree.baseFor ⟨21⟩ = .ok (some ⟨20⟩) := same ▸ by decide +kernel
  have named : c.tree.nameOf ⟨21⟩ = .ok (some "V") := same ▸ by decide +kernel
  obtain ⟨-, info', hi', -, members⟩ :=
    found_behind_point bound wf top apart arises based named typed found
  cases hi.symm.trans hi'
  exact ⟨c, s, t, u, type, search, same, bound, wf, top, apart, arises, based, named, typed, found,
    of_decide_eq_true one, info, hi, struct, members⟩

/-- The name of a variable of a script is found behind a point though the type before the point is a
struct without it. -/
theorem struct_lends_variable : ∃ (c : Codebase) (s t u : Session) (type : TypeId) (info : TypeInfo)
    (search : Search) (id : SymbolId), c.tree = .ofForms leakForms ∧ c.Bound ∧
    c.tree.WellFormed ∧ c.tree.ScriptsOnTop ∧ c.ScriptsApart ∧ s.Arises c ∧
    c.tree.baseFor ⟨27⟩ = .ok (some ⟨26⟩) ∧ typeOf c ⟨26⟩ s = .ok (some type, t) ∧
    symbolsFor c ⟨27⟩ s = .ok (search, u) ∧ search.symbols = [id] ∧
    u.types.get? type = some info ∧ ¬ HasMember c u type info id := by
  obtain ⟨c, s, same, bound, wf, top, apart, arises, fits⟩ := exists_session leakForms
    (fun c s =>
      (typeOf c ⟨26⟩ s).toOption.any fun (r : Option TypeId × Session) =>
        (symbolsFor c ⟨27⟩ s).toOption.any fun (q : Search × Session) =>
          decide (q.1.symbols = [⟨3⟩]) && r.1.any fun type =>
            (q.2.types.get? type).any fun info => info.isStruct &&
              (q.2.symbol? c info.symbol).any fun above => !above.members.contains ⟨3⟩)
    (by decide +kernel) (by decide +kernel) (by decide +kernel) (by decide +kernel)
  obtain ⟨⟨answer, t⟩, typed, fits⟩ := exists_ok_of_any fits
  obtain ⟨⟨search, u⟩, found, fits⟩ := exists_ok_of_any fits
  obtain ⟨one, fits⟩ := Bool.and_eq_true_iff.1 fits
  obtain ⟨type, answered, typeFits⟩ := (Option.any_eq_true _ _).1 fits
  obtain rfl : answer = some type := answered
  obtain ⟨info, hi, infoFits⟩ := (Option.any_eq_true _ _).1 typeFits
  obtain ⟨struct, symbolFits⟩ := Bool.and_eq_true_iff.1 infoFits
  obtain ⟨above, known, foreign⟩ := (Option.any_eq_true _ _).1 symbolFits
  have based : c.tree.baseFor ⟨27⟩ = .ok (some ⟨26⟩) := same ▸ by decide +kernel
  have stray : ¬ HasMember c u type info ⟨3⟩ := by
    obtain ⟨script, hf⟩ := TypeInfo.form_of_struct struct
    rw [HasMember, hf]
    rintro ⟨⟨info', above', hi', known', member⟩, -⟩
    cases hi.symm.trans hi'
    cases known.symm.trans known'
    simp [member] at foreign
  exact ⟨c, s, t, u, type, info, search, ⟨3⟩, same, bound, wf, top, apart, arises, based, typed,
    found, of_decide_eq_true one, hi, stray⟩

end Query

end PapyrusAnalysis
