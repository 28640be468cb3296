import Framewise.Frames.Range
import Framewise.Proofs.Number.Value

/-!
# The places that bounds stand for

`FrameRange.position` finds the place of a bound from the bits of the double. `Place` says which one
it is by the number that the double stands for.

* `place_iff`: `position` finds the place of every bound.
* `getElem?_cut`: the entries between two places.
-/

namespace Framewise

/-! ### Places -/

open Number

/-- The place in a list of `n` entries that a bound stands for. Fraction digits are dropped; a
negative bound counts from the end, NaN is zero, and a bound beyond either end is that end. -/
inductive Place (n : ℕ) (bound : Float) : ℕ → Prop
  | notANumber : bound.isNaN = true → Place n bound 0
  | below : bound = -infinity → Place n bound 0
  | above : bound = infinity → Place n bound n
  | fromStart {q : ℚ} {p : ℕ} : rational? bound = some q → 0 ≤ towardZero q →
      (p : ℤ) = min (towardZero q) n → Place n bound p
  | fromEnd {q : ℚ} {p : ℕ} : rational? bound = some q → towardZero q < 0 →
      (p : ℤ) = max (n + towardZero q) 0 → Place n bound p

namespace FrameRange

variable {bound : Float} {n : ℕ}

theorem position_of_isNaN (h : bound.isNaN = true) : position bound n = 0 := by
  have hunpack : (unpack bound).isNaN = true := h
  unfold position
  rw [read_eq]
  cases hform : unpack bound with
  | notANumber => rfl
  | infinity s =>
    rw [hform] at hunpack
    cases hunpack
  | zero s =>
    rw [hform] at hunpack
    cases hunpack
  | finite s m e hpos =>
    rw [hform] at hunpack
    cases hunpack

theorem position_neg_infinity : position (-infinity) n = 0 := by
  unfold position
  rw [read_eq, unpack_neg_infinity]
  rfl

theorem position_infinity : position infinity n = n := by
  unfold position
  rw [read_eq, unpack_infinity]
  rfl

/-- The place of a finite bound. -/
theorem position_of_rational {q : ℚ} (h : rational? bound = some q) :
    (position bound n : ℤ) =
      if towardZero q < 0 then max (n + towardZero q) 0 else min (towardZero q) n := by
  unfold position
  rw [read_eq]
  unfold rational? at h
  cases hform : unpack bound with
  | notANumber =>
    rw [hform] at h
    cases h
  | infinity s =>
    rw [hform] at h
    cases h
  | zero s =>
    rw [hform] at h
    cases h
    have hwhole : wholePart 0 minExponent = 0 := by
      unfold wholePart
      rw [Nat.zero_mul, Nat.zero_div]
    have htruncated : towardZero 0 = 0 := by simp [towardZero]
    simp only [Reading.ofUnpacked, hwhole, htruncated]
    rw [if_neg (by omega), if_neg (by omega)]
    omega
  | finite s m e hpos =>
    rw [hform] at h
    cases h
    rw [towardZero_signed (isNegative s) hpos]
    simp only [Reading.ofUnpacked]
    cases isNegative s with
    | false =>
      simp only [Bool.false_eq_true, false_and, if_false]
      rw [if_neg (by omega)]
      omega
    | true =>
      simp only [true_and, if_true]
      split
      · rw [if_pos (by omega)]
        omega
      · rw [if_neg (by omega)]
        omega

/-- **The place of every bound is found.** -/
theorem place_iff {p : ℕ} : Place n bound p ↔ p = position bound n := by
  constructor
  · intro h
    cases h with
    | notANumber h => rw [position_of_isNaN h]
    | below h => rw [h, position_neg_infinity]
    | above h => rw [h, position_infinity]
    | fromStart hq hsign hp =>
      have hposition := position_of_rational (n := n) hq
      rw [if_neg (by omega), ← hp] at hposition
      omega
    | fromEnd hq hsign hp =>
      have hposition := position_of_rational (n := n) hq
      rw [if_pos hsign, ← hp] at hposition
      omega
  · rintro rfl
    cases hq : rational? bound with
    | some q =>
      have hposition := position_of_rational (n := n) hq
      by_cases hsign : towardZero q < 0
      · rw [if_pos hsign] at hposition
        exact .fromEnd hq hsign hposition
      · rw [if_neg hsign] at hposition
        exact .fromStart hq (not_lt.1 hsign) hposition
    | none =>
      rcases of_rational?_eq_none hq with hnan | rfl | rfl
      · rw [position_of_isNaN hnan]
        exact .notANumber hnan
      · rw [position_neg_infinity]
        exact .below rfl
      · rw [position_infinity]
        exact .above rfl

/-! ### Entries between two places -/

/-- **The entries between two places** are those of the list from the first place on. -/
theorem getElem?_cut {α : Type} (range : FrameRange) (xs : List α) (i : ℕ) :
    (range.cut xs)[i]? =
      if i < position range.stop xs.length - position range.start xs.length then
        xs[position range.start xs.length + i]?
      else none := by
  unfold cut
  rw [List.getElem?_drop, List.getElem?_take]
  have hiff : position range.start xs.length + i < position range.stop xs.length ↔
      i < position range.stop xs.length - position range.start xs.length := by omega
  simp only [hiff]

/-- Cutting a list to a range commutes with changing its entries. -/
theorem cut_map {α β : Type} (range : FrameRange) (f : α → β) (xs : List α) :
    range.cut (xs.map f) = (range.cut xs).map f := by
  unfold cut
  rw [List.length_map, List.map_drop, List.map_take]

end FrameRange

end Framewise
