import PapyrusAnalysis.Program
import PapyrusAnalysis.Proofs.Binding.Answers

/-!
# Bound codebases

A codebase comes about by binding the scripts of a tree, one after another in one table, or as a
program that also keeps an index of its scripts. Either way its symbols answer for the nodes that
declare them, and the scripts that can be named are symbols of scripts with that name.

## Main definitions

* `Codebase.Bound`: the codebases that come about by binding.
* `Codebase.Sound`: what is true of them if the tree is well formed.
* `Program.Sound`: what is true of a program.
-/

namespace PapyrusAnalysis

/-- What a script declares is a script. -/
theorem Tree.kind_eq_script {t : Tree} {root identifier : NodeId} {kind : SymbolKind} {n : Node}
    (hn : t.node? root = some n) (script : n.form.isScript)
    (hd : t.declaration? root = some (kind, identifier)) : kind = .script := by
  rw [Tree.declaration?, Tree.formAt_eq hn] at hd
  cases hf : n.form <;> simp only [hf, Form.isScript, Bool.false_eq_true] at script hd
  grind

namespace Binding

/-- The symbol of a script node is that of a script. -/
theorem Sound.symbolOf_script {t : Tree} {symbols : SymbolTable} (h : Sound t symbols)
    {node : NodeId} {n : Node} {id : SymbolId} (hn : t.node? node = some n)
    (script : n.form.isScript) (found : symbols.symbolOf node = some id) :
    ∃ symbol, symbols.get? id = some symbol ∧ symbol.kind = .script := by
  obtain ⟨symbol, hs, hd⟩ := h.symbolOf found
  obtain ⟨node', identifier, hd', hk, -⟩ := (h.fits hs).declared
  rw [hd] at hd'
  cases hd'
  exact ⟨symbol, hs, Tree.kind_eq_script hn script hk⟩

/-- Every symbol comes from binding a script. -/
def Placed (t : Tree) (symbols : SymbolTable) : Prop :=
  ∀ node ∈ nodes symbols, ∃ root, node ∈ scriptNodes t root

theorem Sound.mem_nodes {t : Tree} {symbols : SymbolTable} (h : Sound t symbols) {id : SymbolId}
    {symbol : Symbol} {node : NodeId} (hs : symbols.get? id = some symbol)
    (hd : symbol.declaration = some node) : node ∈ nodes symbols := by
  have owned := SymbolTable.owns_of_get? hs
  simp only [SymbolTable.owns, h.base, Bool.and_eq_true, decide_eq_true_eq] at owned
  exact List.mem_filterMap.2 ⟨id.index, List.mem_range.2 (by omega), by simp [hs, hd]⟩

end Binding

/-! ## Programs -/

namespace Program

open Binding

/-- What is true of a program. -/
structure Sound (p : Program) : Prop where
  symbols : Binding.Sound p.tree p.symbols
  scripts : ∀ {key script}, p.scripts.find? key = some script → p.tree.Has script.root ∧
    ∃ symbol, p.symbols.get? script.symbol = some symbol ∧ symbol.kind = .script ∧
      Text.lowercase symbol.name = key ∧ symbol.declaration = some script.root
  roots : ∀ script ∈ p.scripts.values, p.tree.Has script.root
  placed : Placed p.tree p.symbols

theorem find?_enter {scripts : Registry String ProgramScript} {script found : ProgramScript}
    {key : String} (h : (enter scripts script).find? key = some found) :
    scripts.find? key = some found ∨
      script.name.isEmpty = false ∧ key = Text.lowercase script.name ∧ found = script := by
  unfold enter at h
  dsimp only at h
  split at h
  · exact .inl h
  · rename_i free
    rw [Registry.find?_insert] at h
    split at h
    · rename_i same
      cases h
      simp only [Bool.or_eq_true, not_or, Bool.not_eq_true] at free
      exact .inr ⟨free.1, same.symm, rfl⟩
    · exact .inl h

/-- A program with one more script. -/
def withScript (p : Program) (root : NodeId) (name : String) (answer : Option SymbolId)
    (b : Binding) : Program :=
  { p with
    symbols := b.symbols
    scripts := match answer with
      | some symbol => enter p.scripts ⟨name, root, symbol, (QualifiedName.parse name).file⟩
      | none => p.scripts
    bindReport := p.bindReport ++ b.report.assignFile (QualifiedName.parse name).file }

theorem bindScript_eq (p : Program) (root : NodeId) :
    p.bindScript root = Binding.script p.tree root ⟨p.symbols, []⟩ >>= fun r =>
      p.tree.scriptName root >>= fun name => .ok (p.withScript root (name.getD "") r.1 r.2) := rfl

theorem Sound.withScript {p : Program} {root : NodeId} {n : Node} {name : Option String}
    {answer : Option SymbolId} {b : Binding} (h : p.Sound) (descending : p.tree.Descending)
    (hn : p.tree.node? root = some n) (script : n.form.isScript)
    (hname : p.tree.scriptName root = .ok name)
    (grows : Grows (fun _ => False) p.symbols b.symbols) (sound : Binding.Sound p.tree b.symbols)
    (scripted : Scripted p.tree ⟨p.symbols, []⟩ root answer b) :
    (p.withScript root (name.getD "") answer b).Sound where
  symbols := sound
  scripts {key found} hfind := by
    have old : p.scripts.find? key = some found → p.tree.Has found.root ∧ ∃ symbol,
        b.symbols.get? found.symbol = some symbol ∧ symbol.kind = .script ∧
          Text.lowercase symbol.name = key ∧ symbol.declaration = some found.root := by
      intro hold
      obtain ⟨has, symbol, hs, hkind, hkey, hd⟩ := h.scripts hold
      obtain ⟨symbol', hs', retains, -⟩ := grows.kept hs
      exact ⟨has, symbol', hs', retains.kind.trans hkind, by rw [retains.name, hkey],
        retains.declaration.trans hd⟩
    cases answer with
    | none => exact old hfind
    | some id =>
      rcases find?_enter hfind with hold | ⟨nonempty, rfl, rfl⟩
      · exact old hold
      · obtain ⟨symbol, hs, hd⟩ := scripted.some id rfl
        obtain ⟨node, identifier, hd', hk, called⟩ := (sound.fits hs).declared
        rw [hd] at hd'
        cases hd'
        have kind := Tree.kind_eq_script hn script hk
        rw [kind] at hk
        refine ⟨Tree.has_of_node? hn, symbol, hs, kind, ?_, hd⟩
        rw [called, nameAt_of_scriptName hname hk, title, nonempty, if_neg (by simp)]
  roots := by
    intro found hfound
    cases answer with
    | none => exact h.roots found hfound
    | some id =>
      change found ∈ (enter p.scripts _).values at hfound
      unfold enter at hfound
      dsimp only at hfound
      split at hfound
      · exact h.roots found hfound
      · rcases Registry.mem_values_insert hfound with rfl | hold
        · exact Tree.has_of_node? hn
        · exact h.roots found hold
  placed := by
    intro node hnode
    change node ∈ nodes b.symbols at hnode
    rw [scripted.nodes descending, List.mem_append] at hnode
    exact hnode.elim (h.placed node) fun new => ⟨root, new⟩

/-- What binding one more script keeps is still so when all scripts are bound. -/
theorem foldlM_keeps {P : Program → Prop} {roots : List NodeId} {p p' : Program} (h : P p)
    (step : ∀ {p root answer b name}, Binding.script p.tree root ⟨p.symbols, []⟩ = .ok (answer, b) →
      P p → P (p.withScript root name answer b))
    (run : roots.foldlM bindScript p = .ok p') : P p' := by
  induction roots generalizing p with
  | nil =>
    cases run
    exact h
  | cons root roots ih =>
    rw [List.foldlM_cons, bindScript_eq] at run
    obtain ⟨q, first, rest⟩ := exists_of_bind_eq_ok run
    obtain ⟨r, bound, named⟩ := exists_of_bind_eq_ok first
    obtain ⟨name, -, made⟩ := exists_of_bind_eq_ok named
    cases made
    exact ih (step bound h) rest

theorem tree_foldlM {roots : List NodeId} {p p' : Program}
    (h : roots.foldlM bindScript p = .ok p') : p'.tree = p.tree :=
  foldlM_keeps (P := fun q => q.tree = p.tree) rfl (fun _ same => same) h

theorem sound_empty (t : Tree) : Sound ⟨t, {}, ∅, []⟩ where
  symbols := .empty t
  scripts hfind := by cases hfind
  roots := by
    intro script hscript
    cases hscript
  placed := by
    intro node hnode
    simp [nodes, SymbolTable.size] at hnode

section Cases

variable {w : Setting} (descending : w.tree.Descending) (any : ∀ b, w.invariant b)

include descending any

/-- One more script leaves a program sound. -/
theorem bindScript_cases {p : Program} {root : NodeId} {n : Node} (h : p.Sound)
    (tree : p.tree = w.tree) (hn : w.tree.node? root = some n) (script : n.form.isScript) :
    (∃ p', p.bindScript root = .ok p' ∧ p'.tree = w.tree ∧ p'.Sound) ∨
      ∃ e, p.bindScript root = .error e ∧ w.tolerates e := by
  rw [bindScript_eq, tree]
  have kept : w.Keeps ⟨p.symbols, []⟩ := ⟨tree ▸ h.symbols, any _⟩
  have bears := Setting.bears_form (w := w) (.inl (Tree.has_of_node? hn))
  cases (binds_script root kept bears).runs with
  | fault run tolerated => exact .inr ⟨_, by rw [run]; rfl, tolerated⟩
  | @done answer b run adds kept' scripted =>
    obtain ⟨name, hname, -⟩ := scripted.registers
    refine .inl ⟨p.withScript root (name.getD "") answer b, by rw [run, hname]; rfl, tree, ?_⟩
    rw [← tree] at descending hn hname scripted
    exact h.withScript descending hn script hname (Adds.toGrows adds) (tree ▸ kept'.sound) scripted

theorem foldlM_cases {roots : List NodeId} {p : Program} (h : p.Sound) (tree : p.tree = w.tree)
    (scripts : ∀ root ∈ roots, ∃ n, w.tree.node? root = some n ∧ n.form.isScript) :
    (∃ p', roots.foldlM bindScript p = .ok p' ∧ p'.tree = w.tree ∧ p'.Sound) ∨
      ∃ e, roots.foldlM bindScript p = .error e ∧ w.tolerates e := by
  induction roots generalizing p with
  | nil => exact .inl ⟨p, rfl, tree, h⟩
  | cons root roots ih =>
    obtain ⟨n, hn, script⟩ := scripts root (by simp)
    rw [List.foldlM_cons]
    rcases bindScript_cases descending any h tree hn script with
      ⟨p', run, tree', h'⟩ | ⟨e, run, tolerated⟩
    · rw [run]
      exact ih h' tree' fun root hroot => scripts root (by simp [hroot])
    · exact .inr ⟨e, by rw [run]; rfl, tolerated⟩

/-- The outcome of binding the scripts of a program. -/
theorem ofTree_cases
    (scripts : ∀ root ∈ w.tree.roots, ∃ n, w.tree.node? root = some n ∧ n.form.isScript) :
    (∃ p, ofTree w.tree = .ok p ∧ p.tree = w.tree ∧ p.Sound) ∨
      ∃ e, ofTree w.tree = .error e ∧ w.tolerates e :=
  foldlM_cases descending any (sound_empty w.tree) rfl scripts

end Cases

end Program

/-! ## Codebases -/

namespace Codebase

/-- A codebase that comes about by binding the scripts of a tree. -/
inductive Bound : Codebase → Prop where
  | binding {t : Tree} {b : Binding} (run : Binding.ofTree t = .ok b) :
      Bound ⟨t, b.symbols, b.symbols.scriptIndex⟩
  | program {t : Tree} {p : Program} (run : Program.ofTree t = .ok p) : Bound p.codebase

/-- What is true of a codebase that comes about by binding the scripts of a well-formed tree. -/
structure Sound (c : Codebase) : Prop where
  grown : c.tree.Grown
  descending : c.tree.Descending
  shielded : c.tree.Shielded
  symbols : Binding.Sound c.tree c.symbols
  scripts : ∀ {name id}, c.scripts.find? name = some id → ∃ symbol,
    c.symbols.get? id = some symbol ∧ symbol.kind = .script ∧
      Text.lowercase symbol.name = Text.lowercase name

/-- Binding the scripts of a tree leads to symbols that fit the tree, and the scripts that can be
named are among them. -/
theorem Bound.symbols {c : Codebase} (bound : c.Bound) (grown : c.tree.Grown)
    (descending : c.tree.Descending) : Binding.Sound c.tree c.symbols ∧
      Binding.Placed c.tree c.symbols ∧
      ∀ {name id}, c.scripts.find? name = some id → ∃ symbol, c.symbols.get? id = some symbol ∧
        symbol.kind = .script ∧ Text.lowercase symbol.name = Text.lowercase name := by
  cases bound with
  | @binding t b run =>
    have made := Binding.treeBound_ofTree run
    refine ⟨made.sound, fun node hnode => ?_, made.sound.scripts⟩
    rw [made.nodes descending, List.mem_flatMap] at hnode
    obtain ⟨root, -, inside⟩ := hnode
    exact ⟨root, inside⟩
  | @program t p run =>
    have tree : p.tree = t := Program.tree_foldlM run
    obtain rfl := tree
    rcases Program.ofTree_cases (w := .lenient (Binding.steps_true p.tree)) descending
      (fun _ => trivial) fun root => grown.mem_roots.1 with ⟨p', run', -, kept⟩ | ⟨e, run', -⟩
    · cases run.symm.trans run'
      refine ⟨kept.symbols, kept.placed, ?_⟩
      intro name id hfind
      obtain ⟨script, hscript, rfl⟩ := Option.map_eq_some_iff.1 hfind
      obtain ⟨-, symbol, hs, hkind, hkey, -⟩ := kept.scripts hscript
      exact ⟨symbol, hs, hkind, hkey⟩
    · cases run.symm.trans run'

theorem Bound.sound {c : Codebase} (bound : c.Bound) (grown : c.tree.Grown)
    (descending : c.tree.Descending) (shielded : c.tree.Shielded) : c.Sound :=
  ⟨grown, descending, shielded, (bound.symbols grown descending).1,
    (bound.symbols grown descending).2.2⟩

/-- Scripts are named in any case. -/
theorem Bound.find?_congr {c : Codebase} (bound : c.Bound) {name name' : String}
    (h : Text.lowercase name = Text.lowercase name') :
    c.scripts.find? name = c.scripts.find? name' := by
  cases bound with
  | @binding t b run =>
    change b.symbols.scripts.find? (Text.lowercase name) = b.symbols.scripts.find? _
    rw [h]
  | @program t p run =>
    change (p.scripts.find? (Text.lowercase name)).map _ = (p.scripts.find? _).map _
    rw [h]

end Codebase

end PapyrusAnalysis
