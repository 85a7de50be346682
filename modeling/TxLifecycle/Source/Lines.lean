import TxLifecycle.Source.Span

/-!
# Line index

The offsets at which the lines of a text start, and the position of any byte offset found from
them by binary search. Only the newline byte ends a line.
-/

namespace TxLifecycle

/-- Offsets of the line starts that follow a newline in `bytes`, where `bytes` begin at `offset`. -/
def lineStartsFrom (offset : Nat) : List UInt8 → List Nat
  | [] => []
  | byte :: rest =>
    if byte = 10 then (offset + 1) :: lineStartsFrom (offset + 1) rest
    else lineStartsFrom (offset + 1) rest

/-- Line starts come after the place where the bytes begin. -/
theorem lt_of_mem_lineStartsFrom {offset start : Nat} {bytes : List UInt8}
    (h : start ∈ lineStartsFrom offset bytes) : offset < start := by
  induction bytes generalizing offset with
  | nil => cases h
  | cons byte rest ih =>
    rw [lineStartsFrom] at h
    split at h
    · rcases List.mem_cons.mp h with rfl | h
      · exact Nat.lt_succ_self _
      · exact Nat.lt_trans (Nat.lt_succ_self _) (ih h)
    · exact Nat.lt_trans (Nat.lt_succ_self _) (ih h)

/-- Line starts are found in increasing order. -/
theorem pairwise_lineStartsFrom (offset : Nat) (bytes : List UInt8) :
    (lineStartsFrom offset bytes).Pairwise (· < ·) := by
  induction bytes generalizing offset with
  | nil => exact .nil
  | cons byte rest ih =>
    rw [lineStartsFrom]
    split
    · exact .cons (fun _ h => lt_of_mem_lineStartsFrom h) (ih _)
    · exact ih _

/-- The line starts of one text. -/
structure LineIndex where
  /-- Offset of the first byte of each line. -/
  starts : Array Nat
  /-- The first line starts at zero. -/
  first : starts[0]? = some 0
  increasing : starts.toList.Pairwise (· < ·)
deriving Repr

/-- Where an offset stands among the line starts. -/
inductive LineSearch where
  /-- The line starts at the offset. -/
  | found (line : Nat)
  /-- No line starts at the offset, and this is the first one that would start after it. -/
  | missing (next : Nat)
deriving DecidableEq, Repr

namespace LineIndex

/-- The index of a text given by its bytes. -/
def ofBytes (bytes : List UInt8) : LineIndex where
  starts := (0 :: lineStartsFrom 0 bytes).toArray
  first := rfl
  increasing := .cons (fun _ h => lt_of_mem_lineStartsFrom h) (pairwise_lineStartsFrom 0 bytes)

def ofString (text : String) : LineIndex :=
  ofBytes text.toUTF8.toList

/-- The largest column that a position shows. -/
def columnLimit : Nat := 65535

/-- Line numbers are counted in 32 bits. -/
def lineModulus : Nat := UInt32.size

/-- Binary search for an offset among the starts of the lines from `lo` up to `hi`. -/
def searchWithin (index : LineIndex) (offset lo hi : Nat) (hhi : hi ≤ index.starts.size) :
    LineSearch :=
  if h : lo < hi then
    let middle := lo + (hi - lo) / 2
    have : middle < index.starts.size := by omega
    if index.starts[middle] = offset then .found middle
    else if index.starts[middle] < offset then index.searchWithin offset (middle + 1) hi hhi
    else index.searchWithin offset lo middle (by omega)
  else .missing lo
termination_by hi - lo

def search (index : LineIndex) (offset : Nat) : LineSearch :=
  index.searchWithin offset 0 index.starts.size (Nat.le_refl _)

/-- The line on which an offset falls, counted from zero. Offsets past the end fall on the last
line. -/
def lineAt (index : LineIndex) (offset : Nat) : Nat :=
  match index.search offset with
  | .found line => line
  | .missing next => next - 1

/-- The position of an offset: the last line that starts at or before it, and the distance from
that line's start, cut off at `columnLimit`. -/
def position (index : LineIndex) (offset : Nat) : Position where
  line := (index.lineAt offset + 1) % lineModulus
  column := min columnLimit (offset - index.starts.getD (index.lineAt offset) 0)

/-- The range between the positions of a span's two ends. -/
def range (index : LineIndex) (span : Span) : Range where
  first := index.position span.start
  last := index.position span.stop

end LineIndex

end TxLifecycle
