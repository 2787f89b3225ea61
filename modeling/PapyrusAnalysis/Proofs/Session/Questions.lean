import PapyrusAnalysis.Proofs.Validation.Conduct

/-!
# Asking one question after another

In a session any question can follow any other. Whatever the changes of a session keep to is kept to
by every sequence of questions.

## Main definitions

* `Question`: the questions that can be asked.
* `Session.Leads`: a session that comes about by asking questions in another one.
* `Session.Arises`: a session in which only questions have been asked.
-/

namespace PapyrusAnalysis

/-- A question that may change a session. -/
inductive Question where
  | resolveType (name : String) (containers : List String)
  | typeOfSymbol (id : SymbolId)
  | arrayTypeFor (element : String)
  | elementType (id : TypeId)
  | typeOfTypeName (node : NodeId)
  | scriptHierarchy (type : TypeId)
  | membersOf (type : TypeId) (kinds : FlagSet MemberKind) (filter : Filter)
  | isAssignable (place value : TypeId)
  | isWritable (identifier : NodeId)
  | typeOf (node : NodeId)
  | declaredType (id : SymbolId)
  | symbolsFor (identifier : NodeId)
  | matching (node : NodeId) (name : String) (filter : Filter)
  | available (node : NodeId) (kinds : FlagSet MemberKind) (filter : Filter)
  | isStaticAccess (node : NodeId)
  | localSymbols (node : NodeId) (kinds : FlagSet MemberKind) (filter : Filter)
  | validate (root : NodeId)

namespace Question

variable {c : Codebase} {D : Conduct Session}

/-- The session that follows a question, whatever the answer is. -/
def ask (c : Codebase) : Question → Query Unit
  | resolveType name containers => discard (Query.resolveType c name containers)
  | typeOfSymbol id => discard (Query.typeOfSymbol c id)
  | arrayTypeFor element => discard (Query.arrayTypeFor c element)
  | elementType id => discard (Query.elementType c id)
  | typeOfTypeName node => discard (Query.typeOfTypeName c node)
  | scriptHierarchy type => discard (Query.scriptHierarchy c type)
  | membersOf type kinds filter => discard (Query.membersOf c type kinds filter)
  | isAssignable place value => discard (Query.isAssignable c place value)
  | isWritable identifier => discard (Query.isWritable c identifier)
  | typeOf node => discard (Query.typeOf c node)
  | declaredType id => discard (Query.declaredType c id)
  | symbolsFor identifier => discard (Query.symbolsFor c identifier)
  | matching node name filter => discard (Query.matching c node name filter)
  | available node kinds filter => discard (Query.available c node kinds filter)
  | isStaticAccess node => discard (Query.isStaticAccess c node)
  | localSymbols node kinds filter => discard (Query.localSymbols c node kinds filter)
  | validate root => discard (Query.validate c root)

theorem discard_ok {α : Type} {x : Query α} {s t : Session} {answer : α}
    (run : x s = .ok (answer, t)) : (discard x : Query Unit) s = .ok ((), t) :=
  bind_ok (f := fun _ => pure ()) run

/-- Every question keeps to what the changes of a session keep to. -/
theorem steady (steps : Query.Steps c D) (question : Question) : Steady D (question.ask c) := by
  have quietly {α : Type} {x : Query α} (h : Steady D x) : Steady D (discard x) :=
    .bind h fun _ => .pure _
  cases question with
  | resolveType name containers => exact quietly (steps.plain (.resolveType _ _))
  | typeOfSymbol id => exact quietly (steps.plain (.typeOfSymbol _))
  | arrayTypeFor element => exact quietly (steps.plain (.arrayTypeFor _))
  | elementType id => exact quietly (steps.plain (.elementType _))
  | typeOfTypeName node => exact quietly (steps.plain (.typeOfTypeName _))
  | scriptHierarchy type => exact quietly (steps.plain (.scriptHierarchy _))
  | membersOf type kinds filter => exact quietly (steps.plain (.membersOf _ _ _))
  | isAssignable place value => exact quietly (steps.plain (.isAssignable _ _))
  | isWritable identifier => exact quietly (steps.isWritable _)
  | typeOf node => exact quietly (steps.typeOf _)
  | declaredType id => exact quietly (steps.declaredType _)
  | symbolsFor identifier => exact quietly (steps.symbolsFor _)
  | matching node name filter => exact quietly (steps.asks (.matching (.any _) _ _))
  | available node kinds filter => exact quietly (steps.asks (.available (.any _) _ _))
  | isStaticAccess node => exact quietly (steps.asks (.isStaticAccess (.any _)))
  | localSymbols node kinds filter => exact quietly (steps.plain (.localSymbols _ _ _))
  | validate root => exact quietly (Check.steady_validate steps _)

end Question

namespace Session

variable {c : Codebase} {D : Conduct Session} {s t : Session}

/-- A session comes about by asking questions in another one. -/
inductive Leads (c : Codebase) (s : Session) : Session → Prop where
  | refl : Leads c s s
  | ask {t u : Session} (question : Question) (asked : Leads c s t)
      (run : question.ask c t = .ok ((), u)) : Leads c s u

/-- A sequence of questions keeps to what the changes of a session keep to. -/
theorem Leads.steady (h : Leads c s t) (steps : Query.Steps c D) (kept : D.keeps s) :
    D.grows s t ∧ D.keeps t := by
  induction h with
  | refl => exact ⟨D.refl s, kept⟩
  | ask question _ run ih =>
    obtain ⟨grows, kept'⟩ := question.steady steps ih.2 run
    exact ⟨D.trans ih.1 grows, kept'⟩

/-- A session in which only questions have been asked. -/
def Arises (c : Codebase) (s : Session) : Prop := ∃ first, start c = .ok first ∧ Leads c first s

theorem Arises.ask (h : s.Arises c) (question : Question) (run : question.ask c s = .ok ((), t)) :
    t.Arises c := by
  obtain ⟨first, started, leads⟩ := h
  exact ⟨first, started, leads.ask question run⟩

end Session

end PapyrusAnalysis
