import PapyrusAnalysis.Fault

/-!
# Stretches of source text

Offsets count UTF-8 bytes from the start of a file and are 32-bit numbers. A `Range` gives the two
ends of a stretch of text, a `Span` its start and its length.

## Main definitions

* `Range.cover`: the smallest range around two ranges.
* `Range.toSpan`, `Span.toRange`: the two forms of one stretch of text.
-/

namespace PapyrusAnalysis

/-- The first number that is no text offset. -/
def offsetLimit : Nat := Nat.pow 2 32

/-- A sum of two offsets, as long as it is an offset itself. -/
def addOffset (a b : Nat) : Outcome Nat :=
  if a + b < offsetLimit then .ok (a + b) else .error .offsetOverflow

/-- A stretch of text by its start and its length. -/
structure Span where
  start : Nat
  length : Nat
deriving DecidableEq, Repr, Inhabited

/-- A stretch of text by its start and the offset just behind it. -/
structure Range where
  start : Nat
  stop : Nat
deriving DecidableEq, Repr, Inhabited

namespace Span

/-- The span between two offsets. -/
def ofBounds (start stop : Nat) : Outcome Span :=
  if start ≤ stop then .ok ⟨start, stop - start⟩ else .error (.reversedRange start stop)

/-- The offset just behind the span. -/
def stop (s : Span) : Outcome Nat := addOffset s.start s.length

def isEmpty (s : Span) : Bool := s.length == 0

def toRange (s : Span) : Outcome Range := do return ⟨s.start, ← s.stop⟩

/-- The two ends with dots between them, such as `3..9`. -/
def dotted (s : Span) : Outcome String := do return s!"{s.start}..{← s.stop}"

/-- The half-open interval, such as `[3, 9)`. -/
def interval (s : Span) : Outcome String := do return s!"[{s.start}, {← s.stop})"

end Span

namespace Range

/-- The range without text at an offset. -/
def empty (offset : Nat) : Range := ⟨offset, offset⟩

def length (r : Range) : Outcome Nat :=
  if r.start ≤ r.stop then .ok (r.stop - r.start) else .error (.reversedRange r.start r.stop)

def isEmpty (r : Range) : Bool := r.start == r.stop

/-- Whether an offset lies inside the range. -/
def contains (r : Range) (offset : Nat) : Bool := r.start ≤ offset && offset < r.stop

/-- Whether `inner` lies entirely inside the range. -/
def containsRange (r inner : Range) : Bool := r.start ≤ inner.start && inner.stop ≤ r.stop

/-- The smallest range around both ranges. -/
def cover (r s : Range) : Range := ⟨min r.start s.start, max r.stop s.stop⟩

def toSpan (r : Range) : Outcome Span := Span.ofBounds r.start r.stop

/-- The two ends with dots between them, such as `3..9`. -/
def dotted (r : Range) : String := s!"{r.start}..{r.stop}"

theorem containsRange_cover_left (r s : Range) : (r.cover s).containsRange r := by
  have starts : (r.cover s).start ≤ r.start := Nat.min_le_left _ _
  have stops : r.stop ≤ (r.cover s).stop := Nat.le_max_left _ _
  simp [containsRange, starts, stops]

end Range

/-- Turning an ordered range into a span and back gives the range. -/
theorem Span.toRange_of_toSpan {r : Range} {s : Span} (h : r.toSpan = .ok s)
    (small : r.stop < offsetLimit) : s.toRange = .ok r := by
  simp only [Range.toSpan, Span.ofBounds] at h
  split at h
  · cases h
    rename_i le
    have : r.start + (r.stop - r.start) = r.stop := by omega
    simp [Span.toRange, Span.stop, addOffset, this, small, bind, Except.bind, pure, Except.pure]
  · cases h

end PapyrusAnalysis
