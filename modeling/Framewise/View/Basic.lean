import Framewise.Series
import Framewise.Statistics.Sample

/-!
# Views

A view is what is shown of aligned frames: lines over time, histograms that share their edges,
lines of one metric over another, or rows of statistics. Labels name the metric first and the
source after it.
-/

namespace Framewise

/-- How the values that belong to one point of a plot are put together. -/
inductive Aggregation where
  | mean
  | median
deriving DecidableEq, Repr

/-- The name of an aggregation. -/
def Aggregation.name : Aggregation → String
  | .mean => "mean"
  | .median => "median"

/-- The aggregation of a name. -/
def Aggregation.ofName? (name : String) : Option Aggregation :=
  if name = "mean" then some .mean else if name = "median" then some .median else none

/-- Put together a list of values, which should not be empty. -/
def Aggregation.apply : Aggregation → List Float → Float
  | .mean => Sample.average
  | .median => Sample.middle

/-- A metric of a source over time. `x` numbers the frames. -/
structure TimeLine where
  label : String
  source : String
  key : String
  x : List Nat
  y : Series
deriving DecidableEq

/-- The counts of a metric of a source, bin by bin. -/
structure Histogram where
  label : String
  source : String
  key : String
  counts : List Nat
deriving DecidableEq

/-- A metric of a source over another one. -/
structure PlotLine where
  label : String
  source : String
  xKey : String
  yKey : String
  aggregation : Aggregation
  x : List Float
  y : List Float
deriving DecidableEq

/-- What the lines of a time view show. -/
inductive TimeKind where
  | values
  | totals
deriving DecidableEq, Repr

/-- What the histograms of a view count. -/
inductive HistogramKind where
  | values
  | ratios
  | window
deriving DecidableEq, Repr

/-- A view. -/
inductive View where
  | time (kind : TimeKind) (lines : List TimeLine)
  | histogram (kind : HistogramKind) (edges : List Float) (histograms : List Histogram)
  | plot (lines : List PlotLine)
  | statistics (rows : List Summary)
deriving DecidableEq

/-- The name of a kind of histogram. -/
def HistogramKind.name : HistogramKind → String
  | .values => "hist"
  | .ratios => "hist_ratio"
  | .window => "stdev_hist"

/-- The name of a kind of time view. -/
def TimeKind.name : TimeKind → String
  | .values => "timeseries"
  | .totals => "cumulative_timeseries"

/-- The name of a view's kind. -/
def View.kind : View → String
  | .time kind _ => kind.name
  | .histogram kind _ _ => kind.name
  | .plot _ => "plot"
  | .statistics _ => "stats"

/-- The label of a metric of a source. -/
def label (metric source : String) : String :=
  metric ++ ":" ++ source

/-- The name of the sum over the keys of a view, where a key would stand. -/
def sumKey : String := "sum"

end Framewise
