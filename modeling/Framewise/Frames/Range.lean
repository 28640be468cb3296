import Framewise.Number.Binary

/-!
# Frame ranges

A range has a first frame and a frame to stop before. Bounds are doubles, as requests give
them: fraction digits are dropped, negative bounds count from the end, NaN is zero, and
bounds beyond either end of a series stand for that end.
-/

namespace Framewise

/-- The frames from `start` on, up to but not including `stop`. By default all of them. -/
structure FrameRange where
  start : Float := 0
  stop : Float := 9007199254740991
deriving DecidableEq

namespace FrameRange

/-- The place in a list of length `n` that a bound stands for. -/
def position (bound : Float) (n : Nat) : Nat :=
  match Number.read bound with
  | .notANumber => 0
  | .infinite negative => if negative then 0 else n
  | .finite negative m e =>
    let whole := Number.wholePart m e
    if negative ∧ 0 < whole then n - whole else min whole n

/-- The part of a list that a range stands for. -/
def cut {α : Type} (range : FrameRange) (xs : List α) : List α :=
  (xs.take (position range.stop xs.length)).drop (position range.start xs.length)

/-- A place is never beyond the end. -/
theorem position_le (bound : Float) (n : Nat) : position bound n ≤ n := by
  unfold position
  split
  · exact Nat.zero_le n
  · split <;> omega
  · simp only; split <;> omega

/-- The length of a part depends on the length of the whole only. -/
theorem length_cut {α : Type} (range : FrameRange) (xs : List α) :
    (range.cut xs).length =
      position range.stop xs.length - position range.start xs.length := by
  have := position_le range.stop xs.length
  simp [cut]
  omega

example : ({ start := -2 } : FrameRange).cut [1, 2, 3] = [2, 3] ∧
    ({ start := -0.5, stop := 2.9 } : FrameRange).cut [1, 2, 3] = [1, 2] := by decide +kernel

end FrameRange

end Framewise
