import Mathlib.Data.Prod.Lex
import Framewise.Proofs.Number.Zero

/-!
# The order of doubles

Comparing doubles looks at the side of zero first, then at the exponents and then at the
significands. So doubles that are not NaN are ordered as the triples of these three are, `height`, in
which both zeros have the same place. NaN is neither less nor greater than anything.

* `compare_eq`: comparing is comparing heights.
* `le_iff`, `lt_iff`, `beq_iff`: the three tests on doubles.
* `Number.le_trans`, `not_lt_iff`, `beq_iff_le`: what follows for the tests alone.
* `ascending_mergeSort`: sorting by a test that is no order where NaN is compared.
-/

namespace Framewise.Number

open Float.Model (UnpackedFloat)
open Float.Model.UnpackedFloat

/-! ### Heights -/

/-- The place of a form that is not NaN: the side of zero, and how far from it. -/
def height : UnpackedFloat → ℤ ×ₗ ℤ ×ₗ ℤ
  | .infinity .negative => toLex (-2, toLex (0, 0))
  | .finite .negative m e _ => toLex (-1, toLex (-e, -m))
  | .notANumber | .zero _ => toLex (0, toLex (0, 0))
  | .finite .positive m e _ => toLex (1, toLex (e, m))
  | .infinity .positive => toLex (2, toLex (0, 0))

/-- Triples are compared part by part, the first one first. -/
theorem compare_triple (a b c a' b' c' : ℤ) :
    compare (toLex (a, toLex (b, c))) (toLex (a', toLex (b', c'))) =
      (compare a a').then ((compare b b').then (compare c c')) := by
  rw [Prod.Lex.compare_def]
  show (compare a a').then (compare (toLex (b, c)) (toLex (b', c'))) = _
  rw [Prod.Lex.compare_def]
  rfl

theorem compare_neg (a b : ℤ) : compare (-a) (-b) = (compare a b).swap := by
  rw [Int.compare_swap]
  cases h : compare b a with
  | lt => rw [Int.compare_eq_lt] at h ⊢; omega
  | eq => rw [Int.compare_eq_eq] at h ⊢; omega
  | gt => rw [Int.compare_eq_gt] at h ⊢; omega

theorem compare_natCast (m n : ℕ) : compare (m : ℤ) n = compare m n := by
  cases h : compare m n with
  | lt => rw [Nat.compare_eq_lt] at h; rw [Int.compare_eq_lt]; omega
  | eq => rw [Nat.compare_eq_eq] at h; rw [Int.compare_eq_eq]; omega
  | gt => rw [Nat.compare_eq_gt] at h; rw [Int.compare_eq_gt]; omega

/-- **Comparing forms is comparing their heights**, if none of them is NaN. -/
theorem compare_eq {u v : UnpackedFloat} (hu : u.isNaN = false) (hv : v.isNaN = false) :
    u.compare v = some (compare (height u) (height v)) := by
  cases u with
  | notANumber => cases hu
  | infinity s =>
    cases v with
    | notANumber => cases hv
    | infinity t => cases s <;> cases t <;> rfl
    | zero t => cases s <;> rfl
    | finite t n f h => cases s <;> cases t <;> rfl
  | zero s =>
    cases v with
    | notANumber => cases hv
    | infinity t => cases t <;> rfl
    | zero t => rfl
    | finite t n f h => cases t <;> rfl
  | finite s m e h =>
    cases v with
    | notANumber => cases hv
    | infinity t => cases s <;> cases t <;> rfl
    | zero t => cases s <;> rfl
    | finite t n f h' =>
      cases s with
      | negative =>
        cases t with
        | positive => rfl
        | negative =>
          -- Farther from zero is lower here.
          show some ((compare e f).then (compare m n)).swap = _
          rw [height, height, compare_triple, compare_neg e, compare_neg m, compare_natCast,
            Ordering.swap_then]
          rfl
      | positive =>
        cases t with
        | negative => rfl
        | positive =>
          show some ((compare e f).then (compare m n)) = _
          rw [height, height, compare_triple, compare_natCast]
          rfl

/-- NaN does not compare with anything. -/
theorem compare_notANumber {u v : UnpackedFloat} (h : u.isNaN = true ∨ v.isNaN = true) :
    u.compare v = none := by
  rcases h with h | h
  · cases u with
    | notANumber => rfl
    | infinity s | zero s | finite s m e hpos => cases h
  · cases v with
    | notANumber => cases u <;> rfl
    | infinity s | zero s | finite s m e hpos => cases h

/-! ### The tests on doubles -/

section

variable {x y z : Float}

/-- A test on doubles is a test on how their forms compare. NaN fails it. -/
theorem test_iff (test : Ordering → Bool) :
    ((unpack x).compare (unpack y)).any test = true ↔ x.isNaN = false ∧ y.isNaN = false ∧
      test (compare (height (unpack x)) (height (unpack y))) = true := by
  by_cases hNaN : (unpack x).isNaN = true ∨ (unpack y).isNaN = true
  · rw [compare_notANumber hNaN]
    constructor
    · intro h
      cases h
    · rintro ⟨hx, hy, -⟩
      have hx' : (unpack x).isNaN = false := hx
      have hy' : (unpack y).isNaN = false := hy
      simp [hx', hy'] at hNaN
  · rw [not_or, Bool.not_eq_true, Bool.not_eq_true] at hNaN
    obtain ⟨hx, hy⟩ := hNaN
    rw [compare_eq hx hy, Option.any_some]
    exact ⟨fun h => ⟨hx, hy, h⟩, fun h => h.2.2⟩

/-- **The test `≤` is the order of heights** where none is NaN. -/
theorem le_iff : x ≤ y ↔
    x.isNaN = false ∧ y.isNaN = false ∧ height (unpack x) ≤ height (unpack y) := by
  have h := test_iff (x := x) (y := y) (·.isLE)
  rw [Ordering.isLE_iff_ne_gt, ← Ne, compare_le_iff_le] at h
  rw [← h]
  show decide (((unpack x).compare (unpack y)).any (·.isLE) = true) = true ↔ _
  rw [decide_eq_true_eq]

theorem lt_iff : x < y ↔
    x.isNaN = false ∧ y.isNaN = false ∧ height (unpack x) < height (unpack y) := by
  have h := test_iff (x := x) (y := y) (· == .lt)
  rw [beq_iff_eq, compare_lt_iff_lt] at h
  rw [← h]
  show decide (((unpack x).compare (unpack y) == some .lt) = true) = true ↔ _
  rw [decide_eq_true_eq]
  cases (unpack x).compare (unpack y) <;> simp

theorem beq_iff : (x == y) = true ↔
    x.isNaN = false ∧ y.isNaN = false ∧ height (unpack x) = height (unpack y) := by
  have h := test_iff (x := x) (y := y) (· == .eq)
  rw [beq_iff_eq, compare_eq_iff_eq] at h
  rw [← h]
  show ((unpack x).compare (unpack y) == some .eq) = true ↔ _
  cases (unpack x).compare (unpack y) <;> simp

/-- NaN is neither less nor greater than anything. -/
theorem not_lt_of_isNaN (h : x.isNaN = true ∨ y.isNaN = true) : ¬ x < y := by
  intro hlt
  obtain ⟨hx, hy, -⟩ := lt_iff.1 hlt
  rw [hx, hy, or_self_iff] at h
  cases h

/-! ### The order that the tests see -/

theorem le_self (hx : x.isNaN = false) : x ≤ x :=
  le_iff.2 ⟨hx, hx, le_refl _⟩

protected theorem le_trans (hxy : x ≤ y) (hyz : y ≤ z) : x ≤ z := by
  obtain ⟨hx, -, hlow⟩ := le_iff.1 hxy
  obtain ⟨-, hz, hhigh⟩ := le_iff.1 hyz
  exact le_iff.2 ⟨hx, hz, hlow.trans hhigh⟩

instance instTransLe : Trans (α := Float) (· ≤ ·) (· ≤ ·) (· ≤ ·) := ⟨Number.le_trans⟩

/-- Of two doubles that are not NaN one is less than the other, or the other is at most as great. -/
theorem not_lt_iff (hx : x.isNaN = false) (hy : y.isNaN = false) : ¬ x < y ↔ y ≤ x := by
  rw [lt_iff, le_iff, ← not_lt]
  constructor
  · intro h
    exact ⟨hy, hx, fun hlt => h ⟨hx, hy, hlt⟩⟩
  · rintro ⟨-, -, h⟩ ⟨-, -, hlt⟩
    exact h hlt

theorem not_le_iff (hx : x.isNaN = false) (hy : y.isNaN = false) : ¬ x ≤ y ↔ y < x := by
  rw [← not_lt_iff hy hx, not_not]

protected theorem le_of_lt (h : x < y) : x ≤ y := by
  obtain ⟨hx, hy, hlt⟩ := lt_iff.1 h
  exact le_iff.2 ⟨hx, hy, hlt.le⟩

protected theorem not_lt_of_le (h : y ≤ x) : ¬ x < y := by
  obtain ⟨hy, hx, -⟩ := le_iff.1 h
  exact (not_lt_iff hx hy).2 h

/-- Doubles are equal if each is at most as great as the other. -/
theorem beq_iff_le : (x == y) = true ↔ x ≤ y ∧ y ≤ x := by
  rw [beq_iff, le_iff, le_iff]
  constructor
  · rintro ⟨hx, hy, h⟩
    exact ⟨⟨hx, hy, h.le⟩, hy, hx, h.ge⟩
  · rintro ⟨⟨hx, hy, hle⟩, -, -, hge⟩
    exact ⟨hx, hy, le_antisymm hle hge⟩

end

/-! ### Sorting -/

/-- **Sorting puts doubles into ascending order**, if none of them is NaN. -/
theorem ascending_mergeSort {α : Type} (f : α → Float) {l : List α}
    (h : ∀ a ∈ l, (f a).isNaN = false) :
    (l.mergeSort fun a b => !(f b < f a)).Pairwise fun a b => f a ≤ f b := by
  let stands : α → ℤ ×ₗ ℤ ×ₗ ℤ := fun a => height (unpack (f a))
  have hle : ∀ a ∈ l, ∀ b ∈ l, f a ≤ f b ↔ stands a ≤ stands b := by
    intro a ha b hb
    rw [le_iff, h a ha, h b hb]
    simp [stands]
  -- The test is no order where NaN is compared, but on this list it is that of the heights.
  have htest : ∀ a ∈ l, ∀ b ∈ l, (!(f b < f a)) = decide (stands a ≤ stands b) := by
    intro a ha b hb
    rw [Bool.eq_iff_iff, decide_eq_true_eq, ← hle a ha b hb, ← not_lt_iff (h b hb) (h a ha)]
    simp
  have hsame := @List.map_mergeSort _ _ (fun a b => !(f b < f a))
    (fun a b => decide (stands a ≤ stands b)) id l htest
  rw [List.map_id, List.map_id] at hsame
  have hsorted := List.pairwise_mergeSort' (fun a b => stands a ≤ stands b) l
  rw [hsame]
  apply List.Pairwise.imp_of_mem _ hsorted
  intro a b ha hb hstands
  exact (hle a (List.mem_mergeSort.1 ha) b (List.mem_mergeSort.1 hb)).2 hstands

end Framewise.Number
