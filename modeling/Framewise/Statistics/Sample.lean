import Framewise.Number.Layout
import Framewise.Number.Numeral

/-!
# Statistics of a sample

A sample is a list of values in the order in which they were seen. Each statistic needs a
least number of values; `Shortfall` says which one lacked how many.

Sums run from the first value to the last. Order statistics sort the values in ascending
order, values that are neither less nor greater keeping theirs.
-/

namespace Framewise

/-! ### Too few values -/

/-- What may need more values than there are. -/
inductive Operation where
  | min
  | max
  | mean
  | median
  | stdev
  | quantile
  | histogram
  | ratioHistogram
deriving DecidableEq, Repr

/-- The name of an operation in messages. -/
def Operation.name : Operation → String
  | .min => "min"
  | .max => "max"
  | .mean => "mean"
  | .median => "median"
  | .stdev => "stdev"
  | .quantile => "quantile"
  | .histogram => "hist"
  | .ratioHistogram => "hist_ratio"

/-- An operation that had fewer values than it needs. -/
structure Shortfall where
  operation : Operation
  required : Nat
  available : Nat
deriving DecidableEq, Repr

/-- The message of a shortfall, its parts given as texts. -/
def shortfallText (operation required available : String) : String :=
  operation ++ " requires at least " ++ required ++ " value" ++
    (if required = "1" then "" else "s") ++ ", got " ++ available

/-- What a shortfall says. -/
def Shortfall.message (s : Shortfall) : String :=
  shortfallText s.operation.name (Number.natText s.required) (Number.natText s.available)

namespace Sample

/-- Require `required` values for an operation. -/
def require (operation : Operation) (required : Nat) (values : List Float) :
    Except Shortfall Unit :=
  if values.length < required then .error ⟨operation, required, values.length⟩ else .ok ()

/-! ### Least and greatest value -/

/-- The lesser of two values; the first one if neither is less. -/
def lesser (a b : Float) : Float := if b < a then b else a

/-- The greater of two values; the first one if neither is greater. -/
def greater (a b : Float) : Float := if b > a then b else a

/-- The least value. -/
def minimum : List Float → Except Shortfall Float
  | [] => .error ⟨.min, 1, 0⟩
  | x :: xs => .ok (xs.foldl lesser x)

/-- The greatest value. -/
def maximum : List Float → Except Shortfall Float
  | [] => .error ⟨.max, 1, 0⟩
  | x :: xs => .ok (xs.foldl greater x)

/-! ### Mean and standard deviation -/

/-- The sum of the values, from zero. -/
def sum (values : List Float) : Float :=
  values.foldl (· + ·) 0

/-- The sum divided by the number of values. -/
def average (values : List Float) : Float :=
  sum values / values.length.toFloat

/-- The arithmetic mean. -/
def mean (values : List Float) : Except Shortfall Float :=
  (require .mean 1 values).map fun _ => average values

/-- The standard deviation with the number of values less one as denominator. -/
def stdev (values : List Float) : Except Shortfall Float :=
  (require .stdev 2 values).map fun _ =>
    let center := average values
    let squares := values.foldl (fun total x => total + (x - center) * (x - center)) 0
    (squares / (values.length - 1).toFloat).sqrt

/-! ### Order statistics -/

/-- The values in ascending order. -/
def sort (values : List Float) : List Float :=
  values.mergeSort fun a b => !(b < a)

/-- The value at a rank of a sorted sample. -/
def rank (sorted : List Float) (i : Nat) : Float :=
  sorted.getD i Number.notANumber

/-- The value in the middle of the sorted values, or the mean of the two around it. -/
def middle (values : List Float) : Float :=
  let sorted := sort values
  let half := sorted.length / 2
  if sorted.length % 2 = 1 then rank sorted half
  else (rank sorted (half - 1) + rank sorted half) / 2

/-- The median. -/
def median (values : List Float) : Except Shortfall Float :=
  (require .median 1 values).map fun _ => middle values

/-- The value `x` held between zero and `top`. NaN stays NaN. -/
def clamp (top x : Float) : Float :=
  let below := if top < x then top else x
  if below < 0 then 0 else below

/-- The value at the position `x` between the ranks of a sorted sample, linear between two
neighbouring ranks. -/
def interpolate (sorted : List Float) (x : Float) : Float :=
  match Number.read x with
  | .finite _ m e =>
    let below := Number.wholePart m e
    if Number.isWhole m e then rank sorted below
    else
      rank sorted below + (x - below.toFloat) * (rank sorted (below + 1) - rank sorted below)
  | _ => Number.notANumber

/-- The value below which the share `q` of the sample lies, for `q` from 0 to 1. -/
def quantile (values : List Float) (q : Float) : Except Shortfall Float :=
  (require .quantile 1 values).map fun _ =>
    let top := (values.length - 1).toFloat
    interpolate (sort values) (clamp top (q * top))

end Sample

/-! ### Summaries -/

/-- The statistics of one metric of one source. All of them are doubles, the number of values
included. -/
structure Summary where
  source : String
  key : String
  count : Float
  min : Float
  max : Float
  mean : Float
  median : Float
  stdev : Float
  q95 : Float
deriving DecidableEq

/-- All statistics of a sample. The first one that has too few values fails the summary. -/
def summarize (source key : String) (values : List Float) : Except Shortfall Summary :=
  (Sample.minimum values).bind fun min =>
  (Sample.maximum values).bind fun max =>
  (Sample.mean values).bind fun mean =>
  (Sample.median values).bind fun median =>
  (Sample.stdev values).bind fun stdev =>
  (Sample.quantile values 0.95).map fun q95 =>
    { source, key, count := values.length.toFloat, min, max, mean, median, stdev, q95 }

/-- A summary needs two values: the least value wants one and comes first, the deviation wants
two. -/
theorem summarize_eq_error_iff (source key : String) (values : List Float) (s : Shortfall) :
    summarize source key values = .error s ↔
      values.length = 0 ∧ s = ⟨.min, 1, 0⟩ ∨ values.length = 1 ∧ s = ⟨.stdev, 2, 1⟩ := by
  match values with
  | [] => simp [summarize, Sample.minimum, Except.bind, eq_comm]
  | [x] =>
    simp [summarize, Sample.minimum, Sample.maximum, Sample.mean, Sample.median, Sample.stdev,
      Sample.require, Except.bind, Except.map, eq_comm]
  | x :: y :: values =>
    have h : ¬ values.length + 1 + 1 < 2 := by omega
    simp [summarize, Sample.minimum, Sample.maximum, Sample.mean, Sample.median, Sample.stdev,
      Sample.quantile, Sample.require, Except.bind, Except.map, h]

end Framewise
