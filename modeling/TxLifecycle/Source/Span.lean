/-!
# Spans and ranges

A `Span` is a half-open interval of byte offsets into a source text. A `Range` is the same place
for a reader: two `Position`s, with lines counted from one and byte columns counted from zero.
-/

namespace TxLifecycle

/-- A half-open interval of byte offsets into one source text. -/
structure Span where
  start : Nat := 0
  stop : Nat := 0
deriving DecidableEq, Repr, Inhabited

namespace Span

/-- The other span lies inside this one. -/
def contains (outer inner : Span) : Bool :=
  outer.start ≤ inner.start && inner.stop ≤ outer.stop

/-- This span ends at or before the place where the other begins. -/
def precedes (first second : Span) : Bool :=
  first.stop ≤ second.start

/-- Containment compares both ends. -/
theorem contains_iff (outer inner : Span) :
    outer.contains inner ↔ outer.start ≤ inner.start ∧ inner.stop ≤ outer.stop := by
  simp [contains]

@[simp]
theorem contains_self (span : Span) : span.contains span := by
  simp [contains]

/-- Containment composes. -/
theorem contains_trans {a b c : Span} (hab : a.contains b) (hbc : b.contains c) :
    a.contains c := by
  rw [contains_iff] at *
  omega

end Span

/-- A line, counted from one, and a byte column in it, counted from zero. -/
structure Position where
  /-- Line number, the first line being one. -/
  line : Nat := 0
  /-- Bytes before the position on its line. -/
  column : Nat := 0
deriving DecidableEq, Repr, Inhabited

/-- The stretch between two positions, both of them included. -/
structure Range where
  first : Position := {}
  last : Position := {}
deriving DecidableEq, Repr, Inhabited

/-- The position lies in the range. Columns only matter on the first and the last line. -/
def Range.contains (range : Range) (pos : Position) : Bool :=
  range.first.line ≤ pos.line && pos.line ≤ range.last.line
    && !(pos.line == range.first.line && pos.column < range.first.column)
    && !(pos.line == range.last.line && range.last.column < pos.column)

end TxLifecycle
