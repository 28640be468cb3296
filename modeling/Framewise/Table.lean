import Framewise.Number.Layout
import Framewise.Text.Units

/-!
# Tables

Tables are written with pipes between the columns and a line of dashes under the header. Every
column is padded to its widest cell, and to three characters at least. A pipe inside a cell is
written `\|`.

Numbers are shown with at most six decimal places, whatever their size.
-/

namespace Framewise

/-- A cell of a table. -/
inductive Cell where
  | blank
  | text (s : String)
  | number (x : Float)
deriving DecidableEq

/-- A value, or a blank cell for a gap. -/
def Cell.ofValue? : Option Float → Cell
  | none => .blank
  | some x => .number x

/-- A natural number as a cell. -/
def Cell.ofNat (n : Nat) : Cell :=
  .number n.toFloat

/-- The number of decimal places that cells show. -/
def cellPlaces : Nat := 6

/-- What a cell shows. -/
def Cell.format : Cell → String
  | .blank => ""
  | .text s => s
  | .number x =>
    if Number.isInteger x || !x.isFinite then Number.text x
    else Number.text (Number.roundAt cellPlaces x)

namespace Table

/-- Text inside a cell. -/
def escape (s : String) : String :=
  String.ofList (s.toList.flatMap fun c => if c = '|' then ['\\', '|'] else [c])

/-- The cells of a row under `columns` columns. Missing ones are blank, further ones are left
out. -/
def fit (columns : Nat) (row : List Cell) : List String :=
  ((row ++ List.replicate columns Cell.blank).take columns).map fun cell => escape cell.format

/-- The width of each column. -/
def widths (columns : Nat) (rows : List (List String)) : List Nat :=
  rows.foldl (fun widest row => List.zipWith max widest (row.map Text.width))
    (List.replicate columns 3)

/-- A row with every cell padded to the width of its column. -/
def line (widths : List Nat) (row : List String) : String :=
  "| " ++ String.intercalate " | " (List.zipWith Text.padEnd row widths) ++ " |"

/-- The line under the header. -/
def rule (widths : List Nat) : String :=
  "|" ++ String.intercalate "|"
    (widths.map fun w => String.ofList (List.replicate (w + 2) '-')) ++ "|"

/-- A table with a header and rows. -/
def render (header : List String) (rows : List (List Cell)) : String :=
  let header := header.map escape
  let rows := rows.map (fit header.length)
  let ws := widths header.length (header :: rows)
  String.intercalate "\n" (line ws header :: rule ws :: rows.map (line ws))

/-- Every row has as many cells as there are columns. -/
theorem length_fit (columns : Nat) (row : List Cell) : (fit columns row).length = columns := by
  simp [fit]

end Table

example : Table.render ["a", "long"] [[.number 1, .blank], [.number 22, .text "x|y"]] =
    "| a   | long |\n|-----|------|\n| 1   |      |\n| 22  | x\\|y |" := by decide +kernel

end Framewise
