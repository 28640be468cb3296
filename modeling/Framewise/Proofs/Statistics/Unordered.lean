import Framewise.Proofs.Statistics.Ranks

/-!
# Least and greatest values among NaN

The folds that find the least and the greatest value of a sample compare, and NaN is neither less nor
greater than anything. So they keep NaN if it is the first value, and pass over it anywhere else. The
range of a histogram is found by folds that give NaN wherever it stands.

* `PassesOver`: what both folds of a sample do with NaN.
* `PassesOver.foldl_numbers`, `PassesOver.isNaN_foldl`: only the first value matters for it.
* `minimum_maximum_orderless_iff`: when the order of a sample makes no difference.
-/

namespace Framewise.Sample

open Number

/-! ### Folds that pass over NaN -/

/-- The values that are not NaN. -/
def numbers (values : List Float) : List Float :=
  values.filter fun x => !x.isNaN

theorem numbers_cons_of_isNaN {x : Float} (hx : x.isNaN = true) (xs : List Float) :
    numbers (x :: xs) = numbers xs :=
  List.filter_cons_of_neg (by rw [hx]; decide)

theorem numbers_cons {x : Float} (hx : x.isNaN = false) (xs : List Float) :
    numbers (x :: xs) = x :: numbers xs :=
  List.filter_cons_of_pos (by rw [hx]; decide)

/-- A choice of one of two values, which is the first one if either is NaN. -/
structure PassesOver (choose : Float → Float → Float) : Prop where
  first : ∀ a b, a.isNaN = true ∨ b.isNaN = true → choose a b = a
  choice : ∀ a b, choose a b = a ∨ choose a b = b

theorem passesOver_lesser : PassesOver lesser where
  first _ _ h := if_neg (not_lt_of_isNaN h.symm)
  choice a b := by
    unfold lesser
    split
    · exact .inr rfl
    · exact .inl rfl

theorem passesOver_greater : PassesOver greater where
  first _ _ h := if_neg (not_lt_of_isNaN h)
  choice a b := by
    unfold greater
    split
    · exact .inr rfl
    · exact .inl rfl

section

variable {choose : Float → Float → Float} (h : PassesOver choose)

include h

/-- NaN in the first place stays. -/
theorem PassesOver.foldl_eq {x : Float} (hx : x.isNaN = true) (xs : List Float) :
    xs.foldl choose x = x := by
  induction xs with
  | nil => rfl
  | cons y xs ih => rw [List.foldl_cons, h.first x y (.inl hx), ih]

/-- NaN in any other place makes no difference. -/
theorem PassesOver.foldl_numbers (x : Float) (xs : List Float) :
    (numbers xs).foldl choose x = xs.foldl choose x := by
  induction xs generalizing x with
  | nil => rfl
  | cons y xs ih =>
    cases hy : y.isNaN with
    | true => rw [numbers_cons_of_isNaN hy, ih, List.foldl_cons, h.first x y (.inr hy)]
    | false => rw [numbers_cons hy, List.foldl_cons, ih, List.foldl_cons]

/-- **The fold is NaN exactly if its first value is.** -/
theorem PassesOver.isNaN_foldl (x : Float) (xs : List Float) :
    (xs.foldl choose x).isNaN = x.isNaN := by
  induction xs generalizing x with
  | nil => rfl
  | cons y xs ih =>
    rw [List.foldl_cons, ih]
    by_cases hNaN : x.isNaN = true ∨ y.isNaN = true
    · rw [h.first x y hNaN]
    · rw [not_or, Bool.not_eq_true, Bool.not_eq_true] at hNaN
      rcases h.choice x y with heq | heq
      · rw [heq]
      · rw [heq, hNaN.1, hNaN.2]

end

/-! ### Results -/

/-- There is one NaN. -/
theorem eq_of_isNaN {x y : Float} (hx : x.isNaN = true) (hy : y.isNaN = true) : x = y := by
  rw [Float.isNaN_eq_decide_eq_nan, decide_eq_true_eq] at hx hy
  rw [hx, hy]

theorem Alike.refl (x : Float) : Alike (.ok x) (.ok x) := ⟨x, x, rfl, rfl, .refl x⟩

theorem alike_ok_iff {x y : Float} : Alike (.ok x) (.ok y) ↔ Agree x y := by
  constructor
  · rintro ⟨_, _, hx, hy, h⟩
    obtain rfl := Except.ok.inj hx
    obtain rfl := Except.ok.inj hy
    exact h
  · intro h
    exact ⟨x, y, rfl, rfl, h⟩

/-- Both ends of a sample are numbers, or none is. -/
theorem isNaN_ends (x : Float) (xs : List Float) :
    (xs.foldl lesser x).isNaN = x.isNaN ∧ (xs.foldl greater x).isNaN = x.isNaN :=
  ⟨passesOver_lesser.isNaN_foldl x xs, passesOver_greater.isNaN_foldl x xs⟩

/-- **The ends of a sample are those of its range** if the first value is NaN or none is. -/
theorem agree_ends_iff (x : Float) (xs : List Float) :
    Agree (xs.foldl lesser x) (xs.foldl Frames.lower x) ∧
        Agree (xs.foldl greater x) (xs.foldl Frames.upper x) ↔
      x.isNaN = true ∨ ∀ y ∈ x :: xs, y.isNaN = false := by
  have hlow := Frames.chooses_lower.isNaN_foldl x xs
  have hhigh := Frames.chooses_upper.isNaN_foldl x xs
  constructor
  · rintro ⟨hleast, -⟩
    cases hx : x.isNaN with
    | true => exact .inl rfl
    | false =>
      rw [← hleast.isNaN_eq, (isNaN_ends x xs).1, hx] at hlow
      exact .inr fun y hy => Bool.eq_false_of_not_eq_true (List.any_eq_false.1 hlow.symm y hy)
  · rintro (hx | hnumbers)
    · have hany : (x :: xs).any Float.isNaN = true := List.any_eq_true.2 ⟨x, List.mem_cons_self, hx⟩
      obtain ⟨hleast, hgreatest⟩ := isNaN_ends x xs
      rw [eq_of_isNaN (hleast.trans hx) (hlow.trans hany),
        eq_of_isNaN (hgreatest.trans hx) (hhigh.trans hany)]
      exact ⟨.refl _, .refl _⟩
    · rw [foldl_lesser hnumbers, foldl_greater hnumbers]
      exact ⟨.refl _, .refl _⟩

/-! ### The order of a sample -/

/-- Every permutation of a sample has the same least and the same greatest value. -/
def Orderless (values : List Float) : Prop :=
  ∀ values', values.Perm values' →
    Alike (minimum values) (minimum values') ∧ Alike (maximum values) (maximum values')

/-- The least and the greatest value are the ends of the range that a histogram is counted over. -/
def OfRange (x : Float) (xs : List Float) : Prop :=
  Alike (minimum (x :: xs)) (.ok (xs.foldl Frames.lower x)) ∧
    Alike (maximum (x :: xs)) (.ok (xs.foldl Frames.upper x))

theorem orderless_of_numbers {values : List Float} (hne : values ≠ [])
    (hnumbers : ∀ x ∈ values, x.isNaN = false) : Orderless values := by
  intro values' hperm
  have hunsigned := hperm.map unsignZero
  have hrank := agree_rank hnumbers hunsigned
  have hne' : values' ≠ [] := by
    rintro rfl
    exact hne (List.perm_nil.1 hperm)
  have hnumbers' := numbers_of_perm hnumbers hunsigned
  obtain ⟨least, hleast, hfirst⟩ := exists_minimum hne hnumbers
  obtain ⟨least', hleast', hfirst'⟩ := exists_minimum hne' hnumbers'
  obtain ⟨greatest, hgreatest, hlast⟩ := exists_maximum hne hnumbers
  obtain ⟨greatest', hgreatest', hlast'⟩ := exists_maximum hne' hnumbers'
  rw [← hperm.length_eq] at hlast'
  exact ⟨⟨_, _, hleast, hleast', hfirst.trans ((hrank 0).trans hfirst'.symm)⟩,
    _, _, hgreatest, hgreatest', hlast.trans ((hrank _).trans hlast'.symm)⟩

theorem orderless_of_isNaN {values : List Float} (hne : values ≠ [])
    (hNaN : ∀ x ∈ values, x.isNaN = true) : Orderless values := by
  intro values' hperm
  cases values with
  | nil => exact absurd rfl hne
  | cons x xs =>
    cases values' with
    | nil => exact absurd (List.perm_nil.1 hperm) hne
    | cons x' xs' =>
      have hx := hNaN x List.mem_cons_self
      have hx' := hNaN x' (hperm.mem_iff.2 List.mem_cons_self)
      obtain rfl := eq_of_isNaN hx hx'
      have hleast : ∀ xs, minimum (x :: xs) = .ok x :=
        fun xs => congrArg Except.ok (passesOver_lesser.foldl_eq hx xs)
      have hgreatest : ∀ xs, maximum (x :: xs) = .ok x :=
        fun xs => congrArg Except.ok (passesOver_greater.foldl_eq hx xs)
      rw [hleast, hleast, hgreatest, hgreatest]
      exact ⟨.refl x, .refl x⟩

/-- Every value comes first in some permutation, and the least value is NaN there if this value is. -/
theorem Orderless.isNaN_minimum {x : Float} {xs : List Float} (h : Orderless (x :: xs)) {y : Float}
    (hy : y ∈ x :: xs) : (xs.foldl lesser x).isNaN = y.isNaN := by
  obtain ⟨before, after, hcut⟩ := List.append_of_mem hy
  have hperm : (x :: xs).Perm (y :: (before ++ after)) := hcut ▸ List.perm_middle
  obtain ⟨least, least', hleast, hleast', hagree⟩ := (h _ hperm).1
  obtain rfl := Except.ok.inj hleast
  obtain rfl := Except.ok.inj hleast'
  rw [hagree.isNaN_eq, (isNaN_ends _ _).1]

/-- **The order of a sample makes no difference** to its least and its greatest value exactly if it has
no NaN, or nothing else. -/
theorem orderless_iff (x : Float) (xs : List Float) :
    Orderless (x :: xs) ↔ (∀ y ∈ x :: xs, y.isNaN = false) ∨ ∀ y ∈ x :: xs, y.isNaN = true := by
  constructor
  · intro h
    cases hleast : (xs.foldl lesser x).isNaN with
    | false => exact .inl fun y hy => (h.isNaN_minimum hy).symm.trans hleast
    | true => exact .inr fun y hy => (h.isNaN_minimum hy).symm.trans hleast
  · rintro (hnumbers | hNaN)
    · exact orderless_of_numbers (List.cons_ne_nil x xs) hnumbers
    · exact orderless_of_isNaN (List.cons_ne_nil x xs) hNaN

/-- **NaN and the order of a sample.** The least and the greatest value of a sample

* are NaN if the first value is, and otherwise those of the sample without NaN;
* are the ends of the range that its histogram is counted over, if the first value is NaN or none is, and
  only then;
* are both, the ends of this range and the same for every permutation of the sample, if it has no NaN or
  nothing else, and only then. -/
theorem minimum_maximum_orderless_iff (x : Float) (xs : List Float) :
    (x.isNaN = true → minimum (x :: xs) = .ok x ∧ maximum (x :: xs) = .ok x) ∧
    (x.isNaN = false → minimum (x :: xs) = minimum (numbers (x :: xs)) ∧
      maximum (x :: xs) = maximum (numbers (x :: xs))) ∧
    (OfRange x xs ↔ x.isNaN = true ∨ ∀ y ∈ x :: xs, y.isNaN = false) ∧
    (Orderless (x :: xs) ∧ OfRange x xs ↔
      (∀ y ∈ x :: xs, y.isNaN = false) ∨ ∀ y ∈ x :: xs, y.isNaN = true) := by
  have hrange : OfRange x xs ↔ x.isNaN = true ∨ ∀ y ∈ x :: xs, y.isNaN = false := by
    rw [← agree_ends_iff]
    exact and_congr alike_ok_iff alike_ok_iff
  refine ⟨?_, ?_, hrange, ?_⟩
  · intro hx
    exact ⟨congrArg Except.ok (passesOver_lesser.foldl_eq hx xs),
      congrArg Except.ok (passesOver_greater.foldl_eq hx xs)⟩
  · intro hx
    rw [numbers_cons hx xs]
    exact ⟨congrArg Except.ok (passesOver_lesser.foldl_numbers x xs).symm,
      congrArg Except.ok (passesOver_greater.foldl_numbers x xs).symm⟩
  · rw [hrange, orderless_iff]
    constructor
    · exact And.left
    · intro h
      refine ⟨h, ?_⟩
      rcases h with hnumbers | hNaN
      · exact .inr hnumbers
      · exact .inl (hNaN x List.mem_cons_self)

/-- The order of two values makes a difference if one of them is NaN. -/
theorem not_orderless_pair : ¬ ∀ x xs, Orderless (x :: xs) ∧ OfRange x xs := by
  intro h
  obtain ⟨-, hleast, -⟩ := h 1 [notANumber]
  have hNaN := (alike_ok_iff.1 hleast).isNaN_eq
  revert hNaN
  decide +kernel

end Framewise.Sample
