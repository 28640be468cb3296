import Framewise.Check.Checked
import Framewise.View.Request

/-!
# Checking requests

The documents that ask for frames and views, with their defaults. Fields are looked at in a
fixed order; a document that joins two others has the fields of the first before those of the
second.
-/

namespace Framewise

/-- A request for aligned frames. Without keys, all keys are meant. -/
structure FramesRequest where
  range : FrameRange := {}
  keys : Option (List String) := none
deriving DecidableEq

/-- A request for views over a range of frames. -/
structure ViewsRequest where
  views : ViewRequest := {}
  range : FrameRange := {}
deriving DecidableEq

namespace Check

/-- The fields of an object. -/
abbrev Fields := String → Option Json

/-- Check a field. -/
def field {α : Type} (path : Path) (fields : Fields) (name : String) (check : Checker α) :
    Checked α :=
  check (path ++ [.field name]) (fields name)

/-- A list of keys, empty if absent. -/
def keyList : Checker (List String) := orElse [] (arrayOf nonEmptyText)

/-- A truth value, false if absent. -/
def flag : Checker Bool := orElse false boolean

/-- A pair of keys. -/
def ratio : Checker RatioRequest := tupleOf 2 fun path item =>
  ((nonEmptyText (path ++ [.item 0]) (item 0)).map RatioRequest.mk).ap
    (nonEmptyText (path ++ [.item 1]) (item 1))

/-- A key and a scale. -/
def window : Checker WindowRequest := tupleOf 2 fun path item =>
  ((nonEmptyText (path ++ [.item 0]) (item 0)).map WindowRequest.mk).ap
    (finite (path ++ [.item 1]) (item 1))

/-- The names of the aggregations. -/
def aggregationNames : List String := ["mean", "median"]

/-- An aggregation. -/
def aggregation : Checker Aggregation := fun path v =>
  (oneOf aggregationNames path v).map fun name => (Aggregation.ofName? name).getD .mean

/-- Two keys and an aggregation. -/
def plot : Checker PlotRequest := tupleOf 3 fun path item =>
  (((nonEmptyText (path ++ [.item 0]) (item 0)).map PlotRequest.mk).ap
    (nonEmptyText (path ++ [.item 1]) (item 1))).ap
    (aggregation (path ++ [.item 2]) (item 2))

/-- The fields of a range. -/
def rangeFields (path : Path) (fields : Fields) : Checked FrameRange :=
  ((field path fields "beginFrame" (orElse ({} : FrameRange).start integer)).map
    FrameRange.mk).ap
    (field path fields "endFrame" (orElse ({} : FrameRange).stop integer))

/-- The fields of a view request. -/
def viewFields (path : Path) (fields : Fields) : Checked ViewRequest :=
  let part {α : Type} := @field α path fields
  (((((((((((part "timeseries" keyList).map ViewRequest.mk).ap
    (part "timeseriesSum" flag)).ap
    (part "cumulativeTimeseries" keyList)).ap
    (part "cumulativeTimeseriesSum" flag)).ap
    (part "hist" keyList)).ap
    (part "histRatio" (orElse [] (arrayOf ratio)))).ap
    (part "stdevHist" (orElse [] (arrayOf window)))).ap
    (part "plot" (orElse [] (arrayOf plot)))).ap
    (part "stats" keyList)).ap
    (part "statsSum" flag))

/-- The fields of a request for views over a range. -/
def viewsFields (path : Path) (fields : Fields) : Checked ViewsRequest :=
  ((viewFields path fields).map ViewsRequest.mk).ap (rangeFields path fields)

/-- A range of frames. -/
def frameRange (v : Option Json) : Checked FrameRange :=
  objectOf rangeFields [] v

/-- A request for frames. -/
def framesRequest (v : Option Json) : Checked FramesRequest :=
  objectOf (fun path fields =>
    ((rangeFields path fields).map FramesRequest.mk).ap
      (field path fields "keys" (optional (arrayOf nonEmptyText)))) [] v

/-- A view request. -/
def viewRequest (v : Option Json) : Checked ViewRequest :=
  objectOf viewFields [] v

/-- A request for views over a range. -/
def viewsRequest (v : Option Json) : Checked ViewsRequest :=
  objectOf viewsFields [] v

end Check

/-! ### Requests as documents -/

/-- The fields of a range. -/
def FrameRange.fields (r : FrameRange) : List (String × Json) :=
  [("beginFrame", .number r.start), ("endFrame", .number r.stop)]

/-- The fields of a view request. -/
def ViewRequest.fields (r : ViewRequest) : List (String × Json) :=
  [("timeseries", Json.strings r.timeseries),
   ("timeseriesSum", .bool r.timeseriesSum),
   ("cumulativeTimeseries", Json.strings r.cumulativeTimeseries),
   ("cumulativeTimeseriesSum", .bool r.cumulativeTimeseriesSum),
   ("hist", Json.strings r.hist),
   ("histRatio", .array (r.histRatio.map fun p => Json.strings [p.numerator, p.denominator])),
   ("stdevHist", .array (r.stdevHist.map fun w => .array [.string w.key, .number w.scale])),
   ("plot", .array (r.plot.map fun p => Json.strings [p.x, p.y, p.aggregation.name])),
   ("stats", Json.strings r.stats),
   ("statsSum", .bool r.statsSum)]

end Framewise
