import Framewise.Frames.Aligned
import Framewise.Statistics.Bins
import Framewise.View.Request

/-!
# Building views

Each kind of view has a builder over aligned frames; `buildViews` builds all views of a
request in a fixed order, and fails with the first view that has too few values.

* Lines over time: every key of every source, and the sum over the keys if asked for.
* Histograms of values and of ratios share the edges from the least to the greatest value of
  all sources.
* A windowed histogram has its edges around the median of the first source.
* Plots group the frames by the value of one metric.
-/

namespace Framewise

/-- The number of edges of histograms of values and ratios. -/
def sharedEdgeCount : Nat := 20

/-- The number of edges of windowed histograms. -/
def windowEdgeCount : Nat := 9

namespace Frames

/-! ### Lines over time -/

/-- The lines of one source, drawn through `change`. -/
def sourceLines (source : String) (columns : Columns) (keys : List String) (addSum : Bool)
    (change : Series → Series) : List TimeLine :=
  let series := keys.map columns.series
  let x := List.range (Series.longest series)
  keys.map (fun key => ⟨label key source, source, key, x, change (columns.series key)⟩) ++
    if addSum then
      [⟨label sumKey source, source, sumKey, x, change (Series.sumByFrame series)⟩]
    else []

/-- The lines of all sources, drawn through `change`. -/
def lines (frames : Frames) (keys : List String) (addSum : Bool) (change : Series → Series) :
    List TimeLine :=
  frames.entries.flatMap fun s => sourceLines s.1 s.2 keys addSum change

/-- The values of each key over time. -/
def timeView (frames : Frames) (keys : List String) (addSum : Bool) : View :=
  .time .values (frames.lines keys addSum id)

/-- The running totals of each key over time. -/
def totalsView (frames : Frames) (keys : List String) (addSum : Bool) : View :=
  .time .totals (frames.lines keys addSum Series.runningTotal)

/-! ### Histograms with shared edges -/

/-- The lesser of two values; NaN if one of them is NaN. -/
def lower (a b : Float) : Float :=
  if a.isNaN then a else if b.isNaN then b else if b < a then b else a

/-- The greater of two values; NaN if one of them is NaN. -/
def upper (a b : Float) : Float :=
  if a.isNaN then a else if b.isNaN then b else if a < b then b else a

/-- The values of one metric of one source, before they are counted. -/
structure Tally where
  source : String
  key : String
  values : List Float

/-- A tally counted between edges. -/
def Tally.count (edges : List Float) (t : Tally) : Histogram :=
  ⟨label t.key t.source, t.source, t.key, Bins.binCounts t.values edges⟩

/-- Histograms of all tallies over the same edges, which go from the least to the greatest
value of all. -/
def sharedHistogram (kind : HistogramKind) (operation : Operation) (tallies : List Tally) :
    Except Shortfall View :=
  match tallies.flatMap Tally.values with
  | [] => .error ⟨operation, 1, 0⟩
  | x :: xs =>
    let edges := Bins.linspace (xs.foldl lower x) (xs.foldl upper x) sharedEdgeCount
    .ok (.histogram kind edges (tallies.map (Tally.count edges)))

/-- Histograms of the values of each key. -/
def histogramView (frames : Frames) (keys : List String) : Except Shortfall View :=
  sharedHistogram .values .histogram <| frames.entries.flatMap fun (source, columns) =>
    keys.map fun key => ⟨source, key, (columns.series key).present⟩

/-- Histograms of the quotients of each pair of keys. -/
def ratioView (frames : Frames) (pairs : List RatioRequest) : Except Shortfall View :=
  sharedHistogram .ratios .ratioHistogram <| frames.entries.flatMap fun (source, columns) =>
    pairs.map fun p => ⟨source, p.name,
      (columns.series p.numerator).ratios (columns.series p.denominator)⟩

/-! ### Histograms around a median -/

/-- The values of a key in the first source. -/
def reference (frames : Frames) (key : String) : List Float :=
  match frames.entries with
  | [] => []
  | (_, columns) :: _ => (columns.series key).present

/-- Histograms of a key over a window around the median of the first source, `scale` standard
deviations wide. -/
def windowView (frames : Frames) (w : WindowRequest) : Except Shortfall View :=
  let values := frames.reference w.key
  (Sample.median values).bind fun center =>
  (Sample.stdev values).map fun deviation =>
    let half := deviation / 2 * w.scale
    let start := center - half
    let stop := center + half
    let edges := Bins.linspace start stop windowEdgeCount
    .histogram .window edges <| frames.entries.map fun (source, columns) =>
      Tally.count edges ⟨source, w.key,
        (columns.series w.key).present.filter fun x => start ≤ x && x ≤ stop⟩

/-! ### Plots -/

/-- Whether two values belong to the same point. -/
def samePoint (a b : Float) : Bool :=
  a == b || (a.isNaN && b.isNaN)

/-- Add a value to the point `x`, where the values of each point are in reverse. -/
def addToPoint (x y : Float) : List (Float × List Float) → List (Float × List Float)
  | [] => [(x, [y])]
  | (x', ys) :: points =>
    if samePoint x' x then (x', y :: ys) :: points else (x', ys) :: addToPoint x y points

/-- The values of one series, by the value of the other in the same frame. Frames where either
has a gap are left out; the points are in the order of first occurrence, and the values of a
point in the order of frames. -/
def groupByPoint (xs ys : Series) : List (Float × List Float) :=
  let pairs := (List.zip xs ys).filterMap fun
    | (some x, some y) => some (x, y)
    | _ => none
  (pairs.foldl (fun points p => addToPoint p.1 p.2 points) []).map fun p => (p.1, p.2.reverse)

/-- The points of one series over another, in ascending order. -/
def points (aggregation : Aggregation) (xs ys : Series) : List (Float × Float) :=
  ((groupByPoint xs ys).map fun p => (p.1, aggregation.apply p.2)).mergeSort
    fun a b => !(b.1 < a.1)

/-- One line for each plot and source. -/
def plotView (frames : Frames) (plots : List PlotRequest) : View :=
  .plot <| frames.entries.flatMap fun (source, columns) =>
    plots.map fun p =>
      let line := points p.aggregation (columns.series p.x) (columns.series p.y)
      { label := label p.name source, source, xKey := p.x, yKey := p.y,
        aggregation := p.aggregation, x := line.map Prod.fst, y := line.map Prod.snd }

/-! ### Statistics -/

/-- The rows of one source. -/
def sourceRows (source : String) (columns : Columns) (keys : List String) (addSum : Bool) :
    Except Shortfall (List Summary) :=
  (keys.mapM fun key => summarize source key (columns.series key).present).bind fun rows =>
    if addSum then
      (summarize source sumKey (Series.sumOfFrames (keys.map columns.series))).map
        fun sum => rows ++ [sum]
    else .ok rows

/-- One row for each key and source, and for the sum over the keys if asked for. -/
def statisticsView (frames : Frames) (keys : List String) (addSum : Bool) :
    Except Shortfall View :=
  (frames.entries.mapM fun s => sourceRows s.1 s.2 keys addSum).map fun rows =>
    .statistics rows.flatten

end Frames

/-! ### All views of a request -/

/-- A view of a list of requests, unless the list is empty. -/
def unlessEmpty {α : Type} (requested : List α) (view : Except Shortfall View) :
    Except Shortfall (List View) :=
  if requested.isEmpty then .ok [] else view.map ([·])

/-- All views of a request, in a fixed order. -/
def buildViews (frames : Frames) (r : ViewRequest) : Except Shortfall (List View) :=
  let views := [
    unlessEmpty r.timeseries (.ok (frames.timeView r.timeseries r.timeseriesSum)),
    unlessEmpty r.cumulativeTimeseries
      (.ok (frames.totalsView r.cumulativeTimeseries r.cumulativeTimeseriesSum)),
    unlessEmpty r.hist (frames.histogramView r.hist),
    unlessEmpty r.histRatio (frames.ratioView r.histRatio),
    r.stdevHist.mapM frames.windowView,
    unlessEmpty r.plot (.ok (frames.plotView r.plot)),
    unlessEmpty r.stats (frames.statisticsView r.stats r.statsSum)]
  (views.mapM id).map List.flatten

end Framewise
