import PapyrusAnalysis.Proofs.Binding.Invariant

/-!
# What binding declares

Which nodes get a symbol can be read off the tree: `functionNodes`, `propertyNodes` and so on list
them in the order of their symbols, and `memberParts` lists the parts that become members. What is
read from a tree on the way is there if every node comes after its parts.

## Main definitions

* `Binding.definitionNodes`, `Binding.scriptNodes`: the nodes that a definition or a script
  declares.
* `Binding.memberParts`: the parts of a declaration that become its members.
* `Binding.declaresAs`: a node declares something as a phrase of some form.
-/

namespace PapyrusAnalysis

namespace Binding

/-! ## The nodes that get a symbol -/

def isVariable : Form → Bool
  | .variableDefinition .. => true
  | _ => false

def isParameter : Form → Bool
  | .parameter .. => true
  | _ => false

def isImport : Form → Bool
  | .importLine .. => true
  | _ => false

/-- A node, if its phrase is wanted. -/
def nodeIf (t : Tree) (wanted : Form → Bool) (node : NodeId) : List NodeId :=
  [node].filter (t.isWanted wanted)

/-- Whether an identifier names something. -/
def isNamed (t : Tree) (identifier : NodeId) : Bool := !(t.nameAt identifier).isEmpty

/-- The parameters in a list of parameters. -/
def parameterNodes (t : Tree) (list : NodeId) : List NodeId :=
  match t.formAt list with
  | some (.parameterList parameters) => parameters.flatMap (nodeIf t isParameter)
  | _ => []

/-- The variables declared at any depth in some statements. -/
def localNodes (t : Tree) (statements : List NodeId) : List NodeId :=
  statements.flatMap fun s => (t.preorder t.size s).filter (t.isWanted isDeclaration)

/-- What a function or event with some identifier, parameters and statements declares. -/
def bodyNodes (t : Tree) (identifier list : NodeId) (statements : List NodeId) : List NodeId :=
  if isNamed t identifier then parameterNodes t list ++ localNodes t statements else []

def functionNodes (t : Tree) (node : NodeId) : List NodeId :=
  match t.formAt node with
  | some (.function header statements) =>
    match t.formAt header with
    | some (.functionHeader _ identifier list _) => node :: bodyNodes t identifier list statements
    | _ => []
  | _ => []

def eventNodes (t : Tree) (node : NodeId) : List NodeId :=
  match t.formAt node with
  | some (.event header statements) =>
    match t.formAt header with
    | some (.eventHeader identifier list) => node :: bodyNodes t identifier list statements
    | _ => []
  | _ => []

/-- The first function with a name. -/
def accessorAt (t : Tree) (name : String) (functions : List NodeId) : Option NodeId :=
  functions.find? fun f => (functionName? t f).toOption.join.any (Text.sameFolded name)

/-- The functions of a property: the two accessors, and then the others. -/
def accessors (t : Tree) (functions : List NodeId) : List NodeId :=
  (accessorAt t "get" functions).toList ++ (accessorAt t "set" functions).toList ++
    functions.filter fun f =>
      some f ≠ accessorAt t "get" functions && some f ≠ accessorAt t "set" functions

def propertyNodes (t : Tree) (node : NodeId) : List NodeId :=
  match t.formAt node with
  | some (.property _ identifier _ functions _) =>
    node :: if isNamed t identifier then (accessors t functions).flatMap (functionNodes t) else []
  | _ => []

def groupNodes (t : Tree) (node : NodeId) : List NodeId :=
  match t.formAt node with
  | some (.group identifier _ properties) =>
    node :: if isNamed t identifier then properties.flatMap (propertyNodes t) else []
  | _ => []

def structNodes (t : Tree) (node : NodeId) : List NodeId :=
  match t.formAt node with
  | some (.struct identifier members) =>
    node :: if isNamed t identifier then members.flatMap (nodeIf t isVariable) else []
  | _ => []

/-- What a definition in a script or state declares. -/
def definitionNodes (t : Tree) : Nat → NodeId → List NodeId
  | 0, _ => []
  | depth + 1, node =>
    match t.formAt node with
    | some (.variableDefinition ..) | some (.customEvent _) => [node]
    | some (.property ..) => propertyNodes t node
    | some (.function ..) => functionNodes t node
    | some (.event ..) => eventNodes t node
    | some (.group ..) => groupNodes t node
    | some (.struct ..) => structNodes t node
    | some (.state identifier _ definitions) =>
      node :: if isNamed t identifier then definitions.flatMap (definitionNodes t depth) else []
    | _ => []

def scriptNodes (t : Tree) (root : NodeId) : List NodeId :=
  match t.formAt root with
  | some (.script header imports definitions) =>
    match t.formAt header with
    | some (.scriptHeader identifier _ _) =>
      root :: if isNamed t identifier then
        definitions.flatMap (definitionNodes t (t.size + 1)) ++ imports.flatMap (nodeIf t isImport)
      else []
    | _ => []
  | _ => []

/-! ## Members -/

def isProperty : Form → Bool
  | .property .. => true
  | _ => false

/-- Whether a phrase can stand among the definitions of a script or state. -/
def isDefinition : Form → Bool
  | .variableDefinition .. | .property .. | .function .. | .event .. | .customEvent _ | .group ..
  | .state .. | .struct .. => true
  | _ => false

/-- Whether a node gets a symbol where it stands among definitions. -/
def defines (t : Tree) (node : NodeId) : Bool :=
  (t.declaration? node).isSome && t.isWanted isDefinition node

/-- The parts of a group, state or struct that become its members. -/
def memberParts (t : Tree) (node : NodeId) : List NodeId :=
  match t.formAt node with
  | some (.group identifier _ properties) =>
    if isNamed t identifier then properties.filter (t.isWanted isProperty) else []
  | some (.state identifier _ definitions) =>
    if isNamed t identifier then definitions.filter (defines t) else []
  | some (.struct identifier members) =>
    if isNamed t identifier then members.filter (t.isWanted isVariable) else []
  | _ => []

theorem isWanted_iff {t : Tree} {wanted : Form → Bool} {node : NodeId} :
    t.isWanted wanted node ↔ ∃ form, t.formAt node = some form ∧ wanted form = true := by
  cases h : t.node? node <;> simp [Tree.isWanted, Tree.formAt, h]

theorem formAt_of_form {t : Tree} {node : NodeId} {form : Form} (h : t.form node = .ok form) :
    t.formAt node = some form := by
  cases hn : t.node? node with
  | none => simp [Tree.form, Tree.node, hn, bind, Except.bind] at h
  | some n => rw [Tree.formAt_eq hn, Except.ok.inj ((Tree.form_eq_ok hn).symm.trans h)]

theorem isWanted_eq {t : Tree} {node : NodeId} {form : Form} (h : t.form node = .ok form)
    (wanted : Form → Bool) : t.isWanted wanted node = wanted form := by
  obtain ⟨n, hn, rfl⟩ := Option.map_eq_some_iff.1 (formAt_of_form h)
  simp [Tree.isWanted, hn]

def isFunction : Form → Bool
  | .function .. => true
  | _ => false

def isEvent : Form → Bool
  | .event .. => true
  | _ => false

def isGroup : Form → Bool
  | .group .. => true
  | _ => false

/-- Whether a node declares something as a phrase of some form. -/
def declaresAs (t : Tree) (wanted : Form → Bool) (node : NodeId) : Bool :=
  (t.declaration? node).isSome && t.isWanted wanted node

section DeclaresAs

variable {t : Tree} {node identifier : NodeId} {form : Form} {wanted : Form → Bool}
  {kind : SymbolKind}

theorem declaresAs_of (hform : t.form node = .ok form)
    (hd : t.declaration? node = some (kind, identifier)) (h : wanted form = true) :
    declaresAs t wanted node = true := by
  simp [declaresAs, hd, isWanted_eq hform, h]

theorem declaresAs_of_not (hform : t.form node = .ok form) (h : wanted form = false) :
    declaresAs t wanted node = false := by
  simp [declaresAs, isWanted_eq hform, h]

/-- Where it stands among definitions, a node is wanted as it is by its form. -/
theorem defines_eq (wanted : Form → Bool) (hform : t.form node = .ok form)
    (h : wanted form = isDefinition form) : declaresAs t wanted node = defines t node := by
  simp [declaresAs, defines, isWanted_eq hform, h]

end DeclaresAs

/-! ## Reading a declaration -/

section Reading

variable {t : Tree} {node : NodeId}

theorem typeReference?_eq_ok (descending : t.Descending) (has : t.Has node) :
    ∃ reference, typeReference? t node = .ok reference := by
  obtain ⟨n, hn⟩ := has.node?
  obtain ⟨name, hname⟩ := Tree.nameOf_eq_ok descending has
  rw [typeReference?, Tree.form_eq_ok hn, hname]
  simp only [bind, Except.bind, pure, Except.pure]
  split <;> exact ⟨_, rfl⟩

theorem literal?_eq_ok (has : t.Has node) : ∃ value, literal? t node = .ok value := by
  obtain ⟨n, hn⟩ := has.node?
  rw [literal?, Tree.form_eq_ok hn]
  simp only [bind, Except.bind, pure, Except.pure]
  split <;> exact ⟨_, rfl⟩

theorem functionName?_eq_ok (descending : t.Descending) (has : t.Has node) :
    ∃ name, functionName? t node = .ok name := by
  obtain ⟨n, hn⟩ := has.node?
  unfold functionName?
  rw [Tree.form_eq_ok hn]
  simp only [bind, Except.bind]
  split
  · rename_i header statements hf
    have hheader : t.Has header := descending.has hn (by simp [hf, Form.children])
    obtain ⟨h, hh⟩ := hheader.node?
    rw [Tree.form_eq_ok hh]
    dsimp only
    split
    · rename_i returnType identifier list modifiers hg
      exact Tree.nameOf_eq_ok descending (descending.has hh (by simp [hg, Form.children]))
    · exact ⟨none, rfl⟩
  · exact ⟨none, rfl⟩

theorem accessor?_eq_ok (descending : t.Descending) {functions : List NodeId}
    (has : ∀ f ∈ functions, t.Has f) (name : String) :
    ∃ found, accessor? t name functions = .ok found := by
  induction functions with
  | nil => exact ⟨none, rfl⟩
  | cons f functions ih =>
    obtain ⟨called, hcalled⟩ := functionName?_eq_ok descending (has f (by simp))
    obtain ⟨found, hfound⟩ := ih fun other ho => has other (by simp [ho])
    rw [accessor?, hcalled, hfound]
    simp only [bind, Except.bind]
    split <;> exact ⟨_, rfl⟩

theorem accessorAt_of_accessor? {functions : List NodeId} {name : String} {found : Option NodeId}
    (h : accessor? t name functions = .ok found) : found = accessorAt t name functions := by
  induction functions with
  | nil => exact (Except.ok.inj h).symm
  | cons f functions ih =>
    obtain ⟨called, hcalled, rest⟩ := exists_of_bind_eq_ok h
    rw [accessorAt, List.find?_cons, hcalled]
    change _ = match called.any (Text.sameFolded name) with | true => _ | false => _
    split at rest
    · rename_i same
      rw [same]
      exact (Except.ok.inj rest).symm
    · rename_i other
      rw [Bool.eq_false_iff.2 other]
      exact ih rest

/-- The parts of what a node holds are there. -/
theorem has_of_form (descending : t.Descending) {form : Form} (hform : t.form node = .ok form)
    {child : NodeId} (hc : child ∈ form.children) : t.Has child := by
  obtain ⟨n, hn, rfl⟩ := Option.map_eq_some_iff.1 (formAt_of_form hform)
  exact descending.has hn hc

theorem scriptName_eq {root header identifier : NodeId} {imports definitions : List NodeId}
    {extended : Option NodeId} {modifiers : FlagSet Modifier}
    (script : t.form root = .ok (.script header imports definitions))
    (headed : t.form header = .ok (.scriptHeader identifier extended modifiers)) :
    t.scriptName root = t.nameOf identifier := by
  simp only [Tree.scriptName, script, headed, bind, Except.bind]

end Reading

/-! ## Members of members -/

section Within

variable {symbols : SymbolTable} {kind : SymbolKind} {ids : List SymbolId} {member : SymbolId}

theorem exists_of_mem_membersWithin (hm : member ∈ membersWithin symbols kind ids) :
    ∃ id ∈ ids, ∃ symbol, symbols.get? id = some symbol ∧ symbol.kind = kind ∧
      member ∈ symbol.members := by
  obtain ⟨id, hid, hmem⟩ := List.mem_flatMap.1 hm
  split at hmem
  · rename_i symbol hs
    split at hmem
    · rename_i hkind
      exact ⟨id, hid, symbol, hs, hkind, hmem⟩
    · cases hmem
  · cases hmem

theorem canBeMember_of_mem_membersWithin {t : Tree} (h : Sound t symbols)
    (hm : member ∈ membersWithin symbols kind ids) : CanBeMember t symbols member := by
  obtain ⟨id, -, symbol, hs, -, hmem⟩ := exists_of_mem_membersWithin hm
  exact (h.fits hs).members member hmem

end Within

end Binding

end PapyrusAnalysis
