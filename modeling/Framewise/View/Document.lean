import Framewise.Frames.Aligned
import Framewise.Json.Value
import Framewise.View.Basic

/-!
# Views and frames as JSON

The documents that answers are made of. Numbers that JSON lacks stay numbers here; a printer
decides what becomes of them.

A document of frames is an object with a field for each source. A source cannot have a field
with the reserved name, so a source of this name is left out.
-/

namespace Framewise

/-- A series, with `null` for its gaps. -/
def Series.document (s : Series) : Json :=
  .array (s.map fun
    | none => .null
    | some x => .number x)

/-- A record as an object. -/
def Record.document (r : Record) : Json :=
  .object (r.entries.map fun e => (e.1, .number e.2))

/-- The field name that no source can have. -/
def reservedName : String := "__proto__"

/-- The columns of a source as an object. -/
def Columns.document (columns : Columns) : Json :=
  .object (Json.indexFirst (columns.entries.map fun e => (e.1, Series.document e.2)))

/-- Frames as an object of objects. -/
def Frames.document (frames : Frames) : Json :=
  .object (Json.indexFirst ((frames.entries.filter fun e => e.1 ≠ reservedName).map
    fun e => (e.1, Columns.document e.2)))

/-- A line over time. -/
def TimeLine.document (l : TimeLine) : Json :=
  .object [("label", .string l.label), ("source", .string l.source), ("key", .string l.key),
    ("x", Json.naturals l.x), ("y", Series.document l.y)]

/-- A histogram. -/
def Histogram.document (h : Histogram) : Json :=
  .object [("label", .string h.label), ("source", .string h.source), ("key", .string h.key),
    ("counts", Json.naturals h.counts)]

/-- A line of a plot. -/
def PlotLine.document (l : PlotLine) : Json :=
  .object [("label", .string l.label), ("source", .string l.source), ("xKey", .string l.xKey),
    ("yKey", .string l.yKey), ("aggregation", .string l.aggregation.name),
    ("x", Json.numbers l.x), ("y", Json.numbers l.y)]

/-- A row of statistics. -/
def Summary.document (s : Summary) : Json :=
  .object [("source", .string s.source), ("key", .string s.key), ("number", .number s.count),
    ("min", .number s.min), ("max", .number s.max), ("mean", .number s.mean),
    ("median", .number s.median), ("stdev", .number s.stdev), ("q95", .number s.q95)]

/-- A view, its kind first. -/
def View.document (v : View) : Json :=
  .object <| ("kind", .string v.kind) :: match v with
    | .time _ lines => [("lines", .array (lines.map TimeLine.document))]
    | .histogram _ edges histograms =>
      [("edges", Json.numbers edges), ("histograms", .array (histograms.map Histogram.document))]
    | .plot lines => [("lines", .array (lines.map PlotLine.document))]
    | .statistics rows => [("rows", .array (rows.map Summary.document))]

/-- A list of views. -/
def View.documents (views : List View) : Json :=
  .array (views.map View.document)

end Framewise
