import Framewise.Frames.Range
import Framewise.View.Basic

/-!
# View requests

A request names the metrics of each view. `keys` lists every metric that a request reads, in
the order of first use.
-/

namespace Framewise

/-- A histogram of quotients. -/
structure RatioRequest where
  numerator : String
  denominator : String
deriving DecidableEq, Repr

/-- The name of a ratio, where a key would stand. -/
def RatioRequest.name (p : RatioRequest) : String :=
  p.numerator ++ " / " ++ p.denominator

/-- A histogram around a median, so many standard deviations wide. -/
structure WindowRequest where
  key : String
  scale : Float
deriving DecidableEq

/-- A plot of one metric over another. -/
structure PlotRequest where
  x : String
  y : String
  aggregation : Aggregation
deriving DecidableEq, Repr

/-- The text that a plot has for a metric. -/
def PlotRequest.name (p : PlotRequest) : String :=
  "x=" ++ p.x ++ ", y=" ++ p.y ++ ", agg=" ++ p.aggregation.name

/-- Which views to build, of which metrics. -/
structure ViewRequest where
  timeseries : List String := []
  timeseriesSum : Bool := false
  cumulativeTimeseries : List String := []
  cumulativeTimeseriesSum : Bool := false
  hist : List String := []
  histRatio : List RatioRequest := []
  stdevHist : List WindowRequest := []
  plot : List PlotRequest := []
  stats : List String := []
  statsSum : Bool := false
deriving DecidableEq

/-- The metrics that a request reads, each once, in the order of first use. -/
def ViewRequest.keys (r : ViewRequest) : List String :=
  (r.timeseries ++ r.cumulativeTimeseries ++ r.hist ++
    r.histRatio.flatMap (fun p => [p.numerator, p.denominator]) ++
    r.stdevHist.map WindowRequest.key ++
    r.plot.flatMap (fun p => [p.x, p.y]) ++ r.stats).eraseDups

end Framewise
