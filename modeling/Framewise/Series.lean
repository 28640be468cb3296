import Framewise.Number.Binary

/-!
# Series with gaps

A series has one entry for each frame: the value of a metric, or a gap where the frame did not
report it. NaN is a value, not a gap.

* `present` drops the gaps.
* `runningTotal` keeps them, and carries the total across.
* `ratios` has the finite quotients of two series.
* Two ways to add up several series frame by frame: `sumByFrame` adds one series after the
  other and keeps the frames aligned, `sumOfFrames` goes frame by frame and leaves out the
  frames where every series has a gap.
-/

namespace Framewise

/-- The values of a metric, frame by frame. -/
abbrev Series := List (Option Float)

namespace Series

/-- The values of a series, without its gaps. -/
def present (s : Series) : List Float :=
  s.filterMap id

@[simp] theorem present_nil : present [] = [] := rfl

@[simp] theorem present_none (s : Series) : present (none :: s) = present s := rfl

@[simp] theorem present_some (x : Float) (s : Series) :
    present (some x :: s) = x :: present s := rfl

/-! ### Running totals -/

/-- One step of a running total: the entries so far in reverse, and the total. -/
def totalStep (state : Series × Float) : Option Float → Series × Float
  | none => (none :: state.1, state.2)
  | some x => (some (state.2 + x) :: state.1, state.2 + x)

/-- The totals of the values so far, each at its place, counted from `start`. A gap stays a
gap. -/
def runningTotalFrom (start : Float) (s : Series) : Series :=
  (s.foldl totalStep ([], start)).1.reverse

/-- The totals of the values so far, each at its place. -/
def runningTotal (s : Series) : Series :=
  runningTotalFrom 0 s

/-- Entries that are there already stay where they are and change no total. -/
theorem foldl_totalStep (s : Series) (entries : Series) (start : Float) :
    s.foldl totalStep (entries, start) =
      ((s.foldl totalStep ([], start)).1 ++ entries, (s.foldl totalStep ([], start)).2) := by
  induction s generalizing entries start with
  | nil => rfl
  | cons v s ih =>
    cases v with
    | none => simp only [List.foldl_cons, totalStep]; rw [ih, ih [none]]; simp
    | some x => simp only [List.foldl_cons, totalStep]; rw [ih, ih [some _]]; simp

@[simp] theorem runningTotalFrom_nil (start : Float) : runningTotalFrom start [] = [] := rfl

/-- A gap stays a gap, and the total goes on after it. -/
@[simp] theorem runningTotalFrom_none (start : Float) (s : Series) :
    runningTotalFrom start (none :: s) = none :: runningTotalFrom start s := by
  simp only [runningTotalFrom, List.foldl_cons, totalStep]
  rw [foldl_totalStep]; simp

/-- A value is added to the total so far. -/
@[simp] theorem runningTotalFrom_some (start x : Float) (s : Series) :
    runningTotalFrom start (some x :: s) =
      some (start + x) :: runningTotalFrom (start + x) s := by
  simp only [runningTotalFrom, List.foldl_cons, totalStep]
  rw [foldl_totalStep]; simp

/-! ### Ratios -/

/-- The quotient of two values, if both are present and it is finite. -/
def ratio? : Option Float → Option Float → Option Float
  | some a, some b => if (a / b).isFinite then some (a / b) else none
  | _, _ => none

/-- The finite quotients of two series, over the frames that both have. -/
def ratios (numerator denominator : Series) : List Float :=
  (List.zipWith ratio? numerator denominator).filterMap id

/-! ### Sums over several series -/

/-- Add an entry to a total. A gap adds nothing, and the first value is added to zero. -/
def addEntry (total : Option Float) : Option Float → Option Float
  | none => total
  | some x => some (total.getD 0 + x)

/-- Add a series to totals. The longer of the two gives the length. -/
def addSeries : Series → Series → Series
  | [], s => s.map (addEntry none)
  | totals, [] => totals
  | t :: totals, v :: s => addEntry t v :: addSeries totals s

/-- The sum of several series at each frame; a gap where all of them have one. -/
def sumByFrame (series : List Series) : Series :=
  series.foldl addSeries []

/-- The length of the longest series. -/
def longest (series : List Series) : Nat :=
  series.foldl (fun n s => max n s.length) 0

/-- The sums of several series at the frames where one of them has a value. -/
def sumOfFrames (series : List Series) : List Float :=
  let columns := series.map List.toArray
  (List.range (longest series)).filterMap fun frame =>
    columns.foldl (fun total column => addEntry total column[frame]?.join) none

/-- The longer of two series gives the length of their sum. -/
theorem length_addSeries (totals s : Series) :
    (addSeries totals s).length = max totals.length s.length := by
  induction totals generalizing s with
  | nil => simp [addSeries]
  | cons t totals ih =>
    cases s with
    | nil => simp [addSeries]
    | cons v s => simp [addSeries, ih]

/-- The sum at a frame adds the entries of this frame, one after the other. -/
theorem getElem?_addSeries (totals s : Series) (frame : Nat) :
    (addSeries totals s)[frame]?.join = addEntry totals[frame]?.join s[frame]?.join := by
  induction totals generalizing s frame with
  | nil => cases h : s[frame]? <;> simp [addSeries, addEntry, h]
  | cons t totals ih =>
    cases s with
    | nil => simp [addSeries, addEntry]
    | cons v s =>
      cases frame with
      | zero => simp [addSeries]
      | succ frame => simpa [addSeries] using ih s frame

end Series

end Framewise
