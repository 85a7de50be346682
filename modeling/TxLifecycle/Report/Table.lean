import TxLifecycle.Report.Basic

/-!
# Summary table

Counts for every kind of violation that was found, the most severe first, in a box with a header
and a total. Columns are as wide as their widest cell.
-/

namespace TxLifecycle

/-- A text filled up with blanks on the right. -/
def padRight (width : Nat) (text : String) : String :=
  text ++ String.ofList (List.replicate (width - text.length) ' ')

namespace Table

def widths (rows : List (List String)) : List Nat :=
  rows.foldl (fun acc row =>
    (List.range (max acc.length row.length)).map fun i =>
      max (acc[i]?.getD 0) ((row[i]?.getD "").length)) []

/-- A horizontal line: its left end, its filling, its crossings, its right end. -/
def line (left fill cross right : String) (widths : List Nat) : String :=
  left ++ cross.intercalate (widths.map fun w => String.join (List.replicate (w + 2) fill))
    ++ right

def cells (widths : List Nat) (row : List String) : String :=
  "│ " ++ " ┆ ".intercalate ((widths.zip row).map fun (w, cell) => padRight w cell) ++ " │"

/-- A box with a header above its rows. -/
def render (header : List String) (rows : List (List String)) : String :=
  let ws := widths (header :: rows)
  let between := line "├" "╌" "┼" "┤" ws
  let body := (rows.map (cells ws)).intersperse between
  "\n".intercalate
    ([line "╭" "─" "┬" "╮" ws, cells ws header, line "╞" "═" "╪" "╡" ws] ++ body
      ++ [line "╰" "─" "┴" "╯" ws])

end Table

namespace CheckReport

/-- The kinds that were found with their counts: the most severe first, then the most frequent, then
in the order of the kinds. -/
def kindCounts (report : CheckReport) : List (ViolationKind × Nat) :=
  let found := (ViolationKind.all.map fun kind => (kind, report.countKind kind)).filter (0 < ·.2)
  found.mergeSort fun a b =>
    b.1.severity.rank < a.1.severity.rank
      || (b.1.severity.rank == a.1.severity.rank && b.2 ≤ a.2)

/-- The summary table and the line of totals below it. -/
def summary (report : CheckReport) : String :=
  let rows := report.kindCounts.map fun (kind, count) =>
    [kind.text, kind.severity.text, toString count]
  let total := ["TOTAL", "", toString report.diagnostics.length]
  let totals := s!"{report.filesChecked} files, {report.functionsChecked} functions checked in "
    ++ s!"{report.elapsedMs}ms"
  let missing := if report.failures.isEmpty then ""
    else s!", {report.failures.length} files could not be checked"
  Table.render ["Kind", "Severity", "Count"] (rows ++ [total]) ++ "\n" ++ totals ++ missing

end CheckReport

end TxLifecycle
