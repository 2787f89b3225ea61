import PapyrusAnalysis.Proofs.Codebase
import PapyrusAnalysis.Proofs.Tree.Traversal

/-!
# Where declarations stand

The statements that declare variables stand in the bodies of functions and events, and structs do
not. So the containers around a struct keep no variables of bodies among their names, and what can
be named from the declaration of a script or struct is a definition.

## Main definitions

* `Binding.Proper`: a node with a symbol stands where such nodes can stand.
-/

namespace PapyrusAnalysis

namespace Tree

variable {t : Tree} {id other a : NodeId}

/-- The first node around a node with some property lies within all others. -/
theorem Grown.within_of_find? (grown : t.Grown) {wanted : NodeId → Bool}
    (first : (t.outward id).find? wanted = some a) (around : other ∈ t.outward id)
    (h : wanted other = true) : t.Within a other := by
  induction id using grown.inward with
  | step id ih =>
    cases hp : t.parentAt id with
    | none => simp [outward_of_none hp] at around
    | some p =>
      rw [outward_of_parent grown hp] at first around
      rw [List.find?_cons] at first
      split at first
      · cases first
        have has := (grown.has_of_parentAt hp).2.1
        exact within_iff.2 ⟨has, List.mem_cons.1 around⟩
      · rename_i unwanted
        refine ih p hp first ((List.mem_cons.1 around).resolve_left ?_)
        rintro rfl
        cases h.symm.trans unwanted

end Tree

namespace Binding

variable {t : Tree} {node part p : NodeId} {form : Form}

/-- Whether a phrase has a body with statements. -/
def isBody : Form → Bool
  | .function .. | .event .. => true
  | _ => false

/-- No node with a body is around a node. -/
def Clear (t : Tree) (node : NodeId) : Prop :=
  ∀ body, t.Within node body → t.isWanted isBody body = false

theorem Clear.of_part (wf : t.WellFormed) {n : Node} (clear : Clear t p) (hn : t.node? p = some n)
    (hc : part ∈ n.form.children) (h : t.isWanted isBody part = false) : Clear t part := by
  intro body within
  rcases (wf.grown.within_of_parentAt (wf.parentAt hn hc)).1 within with rfl | around
  · exact h
  · exact clear body around

/-- A statement that declares a variable stands in a body, and a struct does not. -/
structure Proper (t : Tree) (node : NodeId) : Prop where
  inside : t.isWanted isDeclaration node → ∃ body, t.isWanted isBody body ∧ t.Within node body
  outside : t.isWanted Form.isStruct node → Clear t node

/-- Only these two kinds of phrases have to stand anywhere. -/
theorem proper_of_form (hf : t.formAt node = some form) (other : isDeclaration form = false)
    (other' : form.isStruct = false) : Proper t node := by
  obtain ⟨n, hn, rfl⟩ := Option.map_eq_some_iff.1 hf
  constructor <;> intro h <;> simp_all [Tree.isWanted]

theorem isWanted_of_formAt (hf : t.formAt node = some form) (wanted : Form → Bool) :
    t.isWanted wanted node = wanted form := by
  obtain ⟨n, hn, rfl⟩ := Option.map_eq_some_iff.1 hf
  simp [Tree.isWanted, hn]

/-! ## Bodies -/

theorem proper_bodyNodes (wf : t.WellFormed) {n : Node} {identifier list : NodeId}
    {statements : List NodeId} (hn : t.node? part = some n) (body : isBody n.form)
    (parts : ∀ s ∈ statements, s ∈ n.form.children)
    (h : node ∈ bodyNodes t identifier list statements) : Proper t node := by
  unfold bodyNodes at h
  split at h
  · rcases List.mem_append.1 h with h | h
    · -- A parameter.
      unfold parameterNodes at h
      split at h
      · obtain ⟨parameter, -, hp⟩ := List.mem_flatMap.1 h
        obtain ⟨form, hf, isParameter⟩ := isWanted_iff.1 (List.mem_filter.1 hp).2
        refine proper_of_form hf ?_ ?_ <;> cases form <;> first | rfl | cases isParameter
      · cases h
    · obtain ⟨s, hs, inside⟩ := List.mem_flatMap.1 h
      obtain ⟨below, wanted⟩ := List.mem_filter.1 inside
      obtain ⟨form, hf, isDeclaration⟩ := isWanted_iff.1 wanted
      refine ⟨fun _ => ⟨part, by simpa [Tree.isWanted, hn] using body, ?_⟩, fun struct => ?_⟩
      · exact wf.within_of_part hn (parts s hs)
          (wf.within_of_mem_preorder (wf.descending.has hn (parts s hs)) below)
      · rw [isWanted_of_formAt hf] at struct
        cases form <;> simp_all [Binding.isDeclaration, Form.isStruct]
  · cases h

theorem proper_functionNodes (wf : t.WellFormed) (h : node ∈ functionNodes t part) :
    Proper t node := by
  unfold functionNodes at h
  split at h
  · rename_i header statements hf
    split at h
    · rcases List.mem_cons.1 h with rfl | h
      · exact proper_of_form hf rfl rfl
      · obtain ⟨n, hn, hform⟩ := Option.map_eq_some_iff.1 hf
        exact proper_bodyNodes wf hn (by rw [hform]; rfl) (by simp_all [Form.children]) h
    · cases h
  · cases h

theorem proper_eventNodes (wf : t.WellFormed) (h : node ∈ eventNodes t part) : Proper t node := by
  unfold eventNodes at h
  split at h
  · rename_i header statements hf
    split at h
    · rcases List.mem_cons.1 h with rfl | h
      · exact proper_of_form hf rfl rfl
      · obtain ⟨n, hn, hform⟩ := Option.map_eq_some_iff.1 hf
        exact proper_bodyNodes wf hn (by rw [hform]; rfl) (by simp_all [Form.children]) h
    · cases h
  · cases h

/-! ## Definitions -/

theorem proper_propertyNodes (wf : t.WellFormed) (h : node ∈ propertyNodes t part) :
    Proper t node := by
  unfold propertyNodes at h
  split at h
  · rename_i hf
    rcases List.mem_cons.1 h with rfl | h
    · exact proper_of_form hf rfl rfl
    split at h
    · obtain ⟨f, -, inside⟩ := List.mem_flatMap.1 h
      exact proper_functionNodes wf inside
    · cases h
  · cases h

theorem proper_groupNodes (wf : t.WellFormed) (h : node ∈ groupNodes t part) : Proper t node := by
  unfold groupNodes at h
  split at h
  · rename_i hf
    rcases List.mem_cons.1 h with rfl | h
    · exact proper_of_form hf rfl rfl
    split at h
    · obtain ⟨property, -, inside⟩ := List.mem_flatMap.1 h
      exact proper_propertyNodes wf inside
    · cases h
  · cases h

theorem proper_structNodes (clear : Clear t part) (h : node ∈ structNodes t part) :
    Proper t node := by
  unfold structNodes at h
  split at h
  · rename_i hf
    rcases List.mem_cons.1 h with rfl | h
    · refine ⟨fun wanted => ?_, fun _ => clear⟩
      rw [isWanted_of_formAt hf] at wanted
      cases wanted
    split at h
    · obtain ⟨member, -, inside⟩ := List.mem_flatMap.1 h
      obtain ⟨form, hf', isVariable⟩ := isWanted_iff.1 (List.mem_filter.1 inside).2
      refine proper_of_form hf' ?_ ?_ <;> cases form <;> first | rfl | cases isVariable
    · cases h
  · cases h

theorem proper_definitionNodes (wf : t.WellFormed) {depth : Nat} {n : Node} (clear : Clear t p)
    (hn : t.node? p = some n) (hc : part ∈ n.form.children)
    (h : node ∈ definitionNodes t depth part) : Proper t node := by
  induction depth generalizing part p n with
  | zero => cases h
  | succ depth ih =>
    unfold definitionNodes at h
    have open' {form : Form} (hf : t.formAt part = some form) (other : isBody form = false) :
        Clear t part := clear.of_part wf hn hc (by rw [isWanted_of_formAt hf, other])
    split at h
    case h_1 hf | h_2 hf =>
      cases List.mem_singleton.1 h
      exact proper_of_form hf rfl rfl
    case h_3 => exact proper_propertyNodes wf h
    case h_4 => exact proper_functionNodes wf h
    case h_5 => exact proper_eventNodes wf h
    case h_6 => exact proper_groupNodes wf h
    case h_7 hf => exact proper_structNodes (open' hf rfl) h
    case h_8 hf =>
      rcases List.mem_cons.1 h with rfl | h
      · exact proper_of_form hf rfl rfl
      split at h
      · obtain ⟨definition, hd, inside⟩ := List.mem_flatMap.1 h
        obtain ⟨n', hn', hform⟩ := Option.map_eq_some_iff.1 hf
        exact ih (open' hf rfl) hn' (by simp [hform, Form.children, hd]) inside
      · cases h
    case h_9 => cases h

theorem proper_scriptNodes (wf : t.WellFormed) (top : t.ScriptsOnTop) {root : NodeId}
    (h : node ∈ scriptNodes t root) : Proper t node := by
  unfold scriptNodes at h
  split at h
  · rename_i header imports definitions hf
    split at h
    · rcases List.mem_cons.1 h with rfl | h
      · exact proper_of_form hf rfl rfl
      split at h
      · rcases List.mem_append.1 h with h | h
        · obtain ⟨definition, hd, inside⟩ := List.mem_flatMap.1 h
          obtain ⟨n, hn, hform⟩ := Option.map_eq_some_iff.1 hf
          have alone : t.parentAt root = none := by
            rw [Tree.parentAt_eq hn]
            exact top root n hn (by rw [hform]; rfl)
          refine proper_definitionNodes wf (p := root) ?_ hn (by simp [hform, Form.children, hd])
            inside
          intro body within
          rw [((Tree.within_of_no_parent alone).1 within).2, isWanted_of_formAt hf]
          rfl
        · obtain ⟨line, -, inside⟩ := List.mem_flatMap.1 h
          obtain ⟨form, hf', isImport⟩ := isWanted_iff.1 (List.mem_filter.1 inside).2
          refine proper_of_form hf' ?_ ?_ <;> cases form <;> first | rfl | cases isImport
      · cases h
    · cases h
  · cases h

/-! ## Names that are kept around a script or struct -/

/-- What a container around the declaration of a script or struct keeps is no variable of a body. -/
theorem canBeMember_of_kept {symbols : SymbolTable} (wf : t.WellFormed) (top : t.ScriptsOnTop)
    (sound : Sound t symbols) (placed : Placed t symbols) {id other : SymbolId} {symbol : Symbol}
    {container : NodeId} (hs : symbols.get? id = some symbol)
    (hd : symbol.declaration = some node) (kind : symbol.kind = .script ∨ symbol.kind = .struct)
    (around : t.Within node container)
    (kept : other ∈ (symbols.names .locals container).values) : CanBeMember t symbols other := by
  obtain ⟨found, declaration, hs', hd', keeper⟩ := sound.names kept
  refine ⟨found, declaration, hs', hd', Bool.eq_false_iff.2 fun wanted => ?_⟩
  obtain ⟨root, inRoot⟩ := placed declaration (sound.mem_nodes hs' hd')
  obtain ⟨body, isBody, inBody⟩ := (proper_scriptNodes wf top inRoot).inside wanted
  obtain ⟨form, hf, statement⟩ := isWanted_iff.1 wanted
  obtain ⟨bodyForm, hbody, withBody⟩ := isWanted_iff.1 isBody
  have inner : body ≠ declaration := by
    rintro rfl
    rw [hf] at hbody
    cases hbody
    cases form <;> simp_all [isDeclaration, Binding.isBody]
  have first : (t.outward declaration).find? (fun a => (t.node? a).any (keeps .locals ·.form)) =
      some container := by
    rw [keeper?, Tree.ancestors_eq hf] at keeper
    exact Except.ok.inj keeper
  have keeps : (t.node? body).any (Binding.keeps .locals ·.form) = true := by
    change t.isWanted (Binding.keeps .locals) body = true
    rw [isWanted_of_formAt hbody]
    cases bodyForm <;> first | rfl | cases withBody
  -- So the body is also around the script or struct.
  have around' : t.Within node body := around.trans wf.grown (wf.grown.within_of_find? first
    ((Tree.within_iff.1 inBody).2.resolve_left inner) keeps)
  obtain ⟨node', identifier, hd'', hk, -⟩ := (sound.fits hs).declared
  cases hd.symm.trans hd''
  obtain ⟨n, hn⟩ := Tree.node?_of_declaration? hk
  rcases kind with kind | kind
  · rw [kind] at hk
    have script := Tree.isScript_of_declaration? hn hk
    have alone : t.parentAt node = none := (Tree.parentAt_eq hn).trans (top node n hn script)
    rw [((Tree.within_of_no_parent alone).1 around').2, Tree.formAt_eq hn] at hbody
    cases hbody
    cases hform : n.form <;> simp_all [Form.isScript, Binding.isBody]
  · rw [kind] at hk
    obtain ⟨root', inRoot'⟩ := placed node (sound.mem_nodes hs hd)
    have struct : t.isWanted Form.isStruct node := by
      simpa [Tree.isWanted, hn] using Tree.isStruct_of_declaration? hn hk
    have clear := (proper_scriptNodes wf top inRoot').outside struct body around'
    cases clear.symm.trans isBody

end Binding

end PapyrusAnalysis
