/-!
# Registries

A registry maps keys to values and remembers the order in which its keys were first entered.
Entering a key again changes its value and keeps its place.

## Main definitions

* `Registry.find?`, `Registry.insert`: look-up and entry.
* `Registry.keys`, `Registry.values`: the contents in the order of entry.
-/

namespace PapyrusAnalysis

/-- A finite map that remembers the order in which its keys were first entered. -/
structure Registry (κ ν : Type) where
  entries : List (κ × ν)
deriving DecidableEq, Repr

namespace Registry

variable {κ ν : Type}

instance : EmptyCollection (Registry κ ν) := ⟨⟨[]⟩⟩
instance : Inhabited (Registry κ ν) := ⟨∅⟩

def keys (r : Registry κ ν) : List κ := r.entries.map (·.1)

def values (r : Registry κ ν) : List ν := r.entries.map (·.2)

variable [DecidableEq κ]

/-- The value of the first pair with the key. -/
def findIn (key : κ) : List (κ × ν) → Option ν
  | [] => none
  | (k, v) :: rest => if k = key then some v else findIn key rest

/-- Changes the value of the first pair with the key, or adds a pair at the end. -/
def insertIn (key : κ) (value : ν) : List (κ × ν) → List (κ × ν)
  | [] => [(key, value)]
  | (k, v) :: rest => if k = key then (k, value) :: rest else (k, v) :: insertIn key value rest

def find? (r : Registry κ ν) (key : κ) : Option ν := findIn key r.entries

def contains (r : Registry κ ν) (key : κ) : Bool := (r.find? key).isSome

def insert (r : Registry κ ν) (key : κ) (value : ν) : Registry κ ν :=
  ⟨insertIn key value r.entries⟩

@[simp] theorem find?_empty (key : κ) : (∅ : Registry κ ν).find? key = none := rfl

theorem findIn_insertIn (key other : κ) (value : ν) (entries : List (κ × ν)) :
    findIn other (insertIn key value entries) =
      if key = other then some value else findIn other entries := by
  induction entries with
  | nil => simp [insertIn, findIn]
  | cons entry rest ih =>
    obtain ⟨k, v⟩ := entry
    by_cases h : k = key
    · subst h; by_cases ho : k = other <;> simp [insertIn, findIn, ho]
    · by_cases ho : k = other
      · subst ho; simp [insertIn, findIn, h, Ne.symm h]
      · simp [insertIn, findIn, h, ho, ih]

@[simp] theorem find?_insert (r : Registry κ ν) (key other : κ) (value : ν) :
    (r.insert key value).find? other = if key = other then some value else r.find? other :=
  findIn_insertIn key other value r.entries

/-- Entering a key keeps its place, or puts it last when it is new. -/
theorem keys_insert (r : Registry κ ν) (key : κ) (value : ν) :
    (r.insert key value).keys = if r.contains key then r.keys else r.keys ++ [key] := by
  obtain ⟨entries⟩ := r
  simp only [insert, keys, contains, find?]
  induction entries with
  | nil => simp [insertIn, findIn]
  | cons entry rest ih =>
    obtain ⟨k, v⟩ := entry
    by_cases h : k = key
    · simp [insertIn, findIn, h]
    · simp only [insertIn, findIn, h, if_false, List.map_cons, ih]
      split <;> simp_all

end Registry

end PapyrusAnalysis
