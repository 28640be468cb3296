import Framewise.Table
import Framewise.View.Basic

/-!
# Views as tables

A time view has a row for each frame, a histogram one for each bin, and statistics one for each
summary. A plot has a table of its own for each line, under the line's label. In a list of
views each one stands under a heading with its kind.
-/

namespace Framewise

namespace View

/-- The entry of a column at a row, blank beyond its end. -/
def cellAt {α : Type} (cell : α → Cell) (column : Array α) (row : Nat) : Cell :=
  match column[row]? with
  | some a => cell a
  | none => .blank

/-- Lines over time: one row for each frame of the longest line. -/
def timeTable (lines : List TimeLine) : String :=
  let frames := lines.foldl (fun n l => max n l.x.length) 0
  let columns := lines.map fun l => l.y.toArray
  Table.render ("frame" :: lines.map TimeLine.label) <|
    (List.range frames).map fun frame =>
      Cell.ofNat frame :: columns.map (cellAt Cell.ofValue? · frame)

/-- Histograms: one row for each bin. -/
def histogramTable (edges : List Float) (histograms : List Histogram) : String :=
  let columns := histograms.map fun h => h.counts.toArray
  let bins := (List.zip edges (edges.drop 1)).zipIdx
  Table.render ("from" :: "to" :: histograms.map Histogram.label) <|
    bins.map fun ((start, stop), bin) =>
      .number start :: .number stop :: columns.map (cellAt Cell.ofNat · bin)

/-- One line of a plot: one row for each point. -/
def plotTable (l : PlotLine) : String :=
  let values := l.y.toArray
  l.label ++ "\n\n" ++ Table.render [l.xKey, l.aggregation.name ++ "(" ++ l.yKey ++ ")"]
    (l.x.zipIdx.map fun (x, i) => [.number x, cellAt .number values i])

/-- The columns of statistics. -/
def summaryHeader : List String :=
  ["source", "key", "number", "min", "max", "mean", "median", "stdev", "q95"]

/-- The cells of a summary. -/
def summaryRow (s : Summary) : List Cell :=
  [.text s.source, .text s.key, .number s.count, .number s.min, .number s.max, .number s.mean,
   .number s.median, .number s.stdev, .number s.q95]

/-- A view as text. -/
def render : View → String
  | .time _ lines => timeTable lines
  | .histogram _ edges histograms => histogramTable edges histograms
  | .plot lines => String.intercalate "\n\n" (lines.map plotTable)
  | .statistics rows => Table.render summaryHeader (rows.map summaryRow)

/-- Views as text, each under its heading. -/
def renderAll (views : List View) : String :=
  String.intercalate "\n\n" (views.map fun v => "## " ++ v.kind ++ "\n\n" ++ v.render)

end View

end Framewise
