import Framewise.Statistics.Sample

/-!
# Bins

`linspace` and `spread` set edges evenly; `binOf?` finds the bin of a value between edges, and
`binCounts` counts the values of each bin. Bins are closed below and open above, but the last
one holds the last edge too.
-/

namespace Framewise.Bins

/-- So many values from `start` on, each `step` after the one before. -/
def steps (start step : Float) (count : Nat) : List Float :=
  (List.range count).map fun i => start + step * i.toFloat

/-- So many evenly spaced values from `start` to `stop`, both included. -/
def linspace (start stop : Float) : Nat → List Float
  | 0 => []
  | 1 => [start]
  | count + 2 => steps start ((stop - start) / (count + 1).toFloat) (count + 1) ++ [stop]

/-- Evenly spaced values whose number is given as a double. One that is no integer sets the
distance as it stands, and as many values follow from it as the integer below it says. -/
def spread (start stop count : Float) : List Float :=
  match Number.truncate? count with
  | none => []
  | some n =>
    if Number.isInteger count then linspace start stop n.toNat
    else steps start ((stop - start) / (count - 1)) n.toNat

/-- The number of a value's bin among the edges, `first` to `last` with `inner` between
them. -/
def binBetween? (first last : Float) (inner : List Float) (x : Float) : Option Nat :=
  if x < first || x > last || x.isNaN then none
  else if x == last then some inner.length
  else some (inner.takeWhile fun edge => x ≥ edge).length

/-- The number of a value's bin. Two edges make the first bin. -/
def binOf? (edges : List Float) (x : Float) : Option Nat :=
  match edges with
  | first :: next :: more =>
    binBetween? first ((next :: more).getLast (List.cons_ne_nil next more))
      (next :: more).dropLast x
  | _ => none

/-- The number of values in each bin. -/
def binCounts (values edges : List Float) : List Nat :=
  let bins := values.filterMap (binOf? edges)
  (List.range (edges.length - 1)).map fun bin => bins.count bin

/-- As many edges as asked for. -/
theorem length_linspace (start stop : Float) (count : Nat) :
    (linspace start stop count).length = count := by
  match count with
  | 0 => rfl
  | 1 => rfl
  | count + 2 => simp [linspace, steps]

/-- One count for each bin. -/
theorem length_binCounts (values edges : List Float) :
    (binCounts values edges).length = edges.length - 1 := by
  simp [binCounts]

example : binCounts [0, 1, 1.5, 2, 3] [0, 1, 2] = [1, 3] := by decide +kernel

end Framewise.Bins
