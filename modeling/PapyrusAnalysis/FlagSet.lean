/-!
# Sets of flags

A flag is one of a few named yes-or-no properties. A set of them is a 32-bit word with one bit for
each flag; bits that belong to no flag are kept as they are.

## Main definitions

* `Flag`: which bit stands for which flag.
* `FlagSet`: a set of flags, with the operations and notation of sets.
-/

namespace PapyrusAnalysis

/-- The bit that stands for each flag of a kind. -/
class Flag (α : Type) where
  bit : α → Nat

/-- A set of flags of one kind. -/
structure FlagSet (α : Type) where
  bits : BitVec 32
deriving DecidableEq, Repr

namespace FlagSet

variable {α : Type}

/-- The set whose bits are those of a 32-bit number. -/
def ofNat (n : Nat) : FlagSet α := ⟨.ofNat 32 n⟩

def toNat (s : FlagSet α) : Nat := s.bits.toNat

instance : EmptyCollection (FlagSet α) := ⟨⟨0#32⟩⟩
instance : Inhabited (FlagSet α) := ⟨∅⟩
instance : Union (FlagSet α) := ⟨fun s t => ⟨s.bits ||| t.bits⟩⟩
instance : Inter (FlagSet α) := ⟨fun s t => ⟨s.bits &&& t.bits⟩⟩

variable [Flag α]

instance : Singleton α (FlagSet α) := ⟨fun flag => ⟨BitVec.twoPow 32 (Flag.bit flag)⟩⟩
instance : Insert α (FlagSet α) := ⟨fun flag s => {flag} ∪ s⟩

/-- Whether the set holds a flag. -/
def has (s : FlagSet α) (flag : α) : Bool := s.bits.getLsbD (Flag.bit flag)

/-- The set without a flag. -/
def erase (s : FlagSet α) (flag : α) : FlagSet α :=
  ⟨s.bits &&& ~~~(BitVec.twoPow 32 (Flag.bit flag))⟩

/-- The flag alone when the condition holds, and no flag otherwise. -/
def only (flag : α) (condition : Bool) : FlagSet α := if condition then {flag} else ∅

@[simp] theorem has_empty (flag : α) : (∅ : FlagSet α).has flag = false := by
  simp [has, EmptyCollection.emptyCollection]

@[simp] theorem has_union (s t : FlagSet α) (flag : α) :
    (s ∪ t).has flag = (s.has flag || t.has flag) := by
  simp [has, Union.union]

@[simp] theorem has_inter (s t : FlagSet α) (flag : α) :
    (s ∩ t).has flag = (s.has flag && t.has flag) := by
  simp [has, Inter.inter]

end FlagSet

end PapyrusAnalysis
