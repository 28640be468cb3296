import Framewise.Proofs.Number.Difference
import Framewise.Proofs.View.Histograms

/-!
# Order statistics

Minimum and maximum fold over a sample in its order, median and quantiles sort it first. Both find the
same values, and none depends on the order of the sample.

* `rank_le_rank`, `agree_rank`: the ranks of a sample ascend, and are those of its permutations.
* `exists_minimum`, `exists_maximum`: the folds find the first and the last rank.
* `interpolate_eq`: the two ranks around a position.
* `order_statistics`: how the four statistics agree.

Zeros are the same here whatever their sign. The number of values has to be a double, which the length of
an array always is.
-/

namespace Framewise.Sample

open Number

/-! ### Sorting -/

theorem perm_sort (values : List Float) : (sort values).Perm values :=
  List.mergeSort_perm _ _

theorem length_sort (values : List Float) : (sort values).length = values.length :=
  (perm_sort values).length_eq

/-- A rank within a sample is a value of it. -/
theorem exists_rank {values : List Float} {i : ℕ} (hi : i < values.length) :
    ∃ h : i < (sort values).length, rank (sort values) i = (sort values)[i] := by
  have hlt : i < (sort values).length := by rwa [length_sort]
  refine ⟨hlt, ?_⟩
  unfold rank
  rw [List.getD_eq_getElem?_getD, List.getElem?_eq_getElem hlt, Option.getD_some]

theorem rank_mem {values : List Float} {i : ℕ} (hi : i < values.length) :
    rank (sort values) i ∈ values := by
  obtain ⟨h, hrank⟩ := exists_rank hi
  rw [hrank]
  exact (perm_sort values).mem_iff.1 (List.getElem_mem h)

/-- Every value has a rank. -/
theorem exists_rank_eq {values : List Float} {x : Float} (hx : x ∈ values) :
    ∃ i < values.length, rank (sort values) i = x := by
  obtain ⟨i, hi, rfl⟩ := List.mem_iff_getElem.1 ((perm_sort values).mem_iff.2 hx)
  have hlt : i < values.length := by rwa [← length_sort]
  obtain ⟨_, hrank⟩ := exists_rank hlt
  exact ⟨i, hlt, hrank⟩

/-- Counting values is counting those before a rank and those from it on. -/
theorem countP_cut (values : List Float) (p : Float → Bool) (i : ℕ) :
    values.countP p = ((sort values).take i).countP p + ((sort values).drop i).countP p := by
  rw [← List.countP_append, List.take_append_drop]
  exact (perm_sort values).symm.countP_eq p

section Numbers

variable {values : List Float} (hnumbers : ∀ x ∈ values, x.isNaN = false)

include hnumbers

/-- **Sorting by the sign of differences** gives the same order. The difference of the same infinity
twice is NaN, which is not positive. -/
theorem sort_eq_differences : sort values = values.mergeSort fun a b => !(0 < a - b) := by
  have htest : ∀ a ∈ values, ∀ b ∈ values, (!(b < a)) = !(0 < a - b) := by
    intro a ha b hb
    rw [Bool.eq_iff_iff]
    simp [sub_pos_iff (hnumbers a ha) (hnumbers b hb)]
  have hsame := @List.map_mergeSort _ _ (fun a b : Float => !(b < a)) (fun a b => !(0 < a - b)) id
    values htest
  rwa [List.map_id, List.map_id] at hsame

theorem ascending_sort : (sort values).Pairwise (· ≤ ·) :=
  ascending_mergeSort id hnumbers

/-- **The ranks of a sample ascend.** -/
theorem rank_le_rank {i j : ℕ} (hij : i ≤ j) (hj : j < values.length) :
    rank (sort values) i ≤ rank (sort values) j := by
  rcases hij.lt_or_eq with hlt | rfl
  · obtain ⟨hi', hi⟩ := exists_rank (hlt.trans hj)
    obtain ⟨hj', hj⟩ := exists_rank hj
    rw [hi, hj]
    exact List.pairwise_iff_getElem.1 (ascending_sort hnumbers) i j hi' hj' hlt
  · exact le_self (hnumbers _ (rank_mem hj))

/-- Only values before a rank are below it. -/
theorem countP_lt_rank {i : ℕ} (hi : i < values.length) :
    values.countP (· < rank (sort values) i) ≤ i := by
  have hnone : ((sort values).drop i).countP (· < rank (sort values) i) = 0 := by
    rw [List.countP_eq_zero]
    intro x hx
    obtain ⟨k, hk, rfl⟩ := List.mem_iff_getElem.1 hx
    rw [List.length_drop, length_sort] at hk
    have hlt : i + k < values.length := by omega
    obtain ⟨_, hrank⟩ := exists_rank hlt
    rw [List.getElem_drop, ← hrank, decide_eq_true_eq]
    exact Number.not_lt_of_le (rank_le_rank hnumbers (Nat.le_add_right i k) hlt)
  have htake := ((sort values).take i).countP_le_length (p := (· < rank (sort values) i))
  rw [List.length_take] at htake
  rw [countP_cut values _ i, hnone]
  omega

/-- Only values after a rank are above it. -/
theorem countP_rank_lt {i : ℕ} (hi : i < values.length) :
    values.countP (rank (sort values) i < ·) ≤ values.length - (i + 1) := by
  have hnone : ((sort values).take (i + 1)).countP (rank (sort values) i < ·) = 0 := by
    rw [List.countP_eq_zero]
    intro x hx
    obtain ⟨k, hk, rfl⟩ := List.mem_iff_getElem.1 hx
    rw [List.length_take, length_sort] at hk
    have hlt : k < values.length := by omega
    obtain ⟨_, hrank⟩ := exists_rank hlt
    rw [List.getElem_take, ← hrank, decide_eq_true_eq]
    exact Number.not_lt_of_le (rank_le_rank hnumbers (by omega) hi)
  have hdrop := ((sort values).drop (i + 1)).countP_le_length (p := (rank (sort values) i < ·))
  rw [List.length_drop, length_sort] at hdrop
  rw [countP_cut values _ (i + 1), hnone]
  omega

end Numbers

/-! ### Least and greatest value -/

/-- Without NaN, a choice that is the same for numbers finds the same value. -/
theorem foldl_same {choose choose' : Float → Float → Float} {before : Float → Float → Prop}
    (hchoose : Frames.Chooses choose before)
    (hsame : ∀ a b, a.isNaN = false → b.isNaN = false → choose' a b = choose a b) {x : Float}
    {xs : List Float} (h : ∀ y ∈ x :: xs, y.isNaN = false) :
    xs.foldl choose' x = xs.foldl choose x := by
  induction xs generalizing x with
  | nil => rfl
  | cons y xs ih =>
    obtain ⟨hx, hxs⟩ := List.forall_mem_cons.1 h
    obtain ⟨hy, hmore⟩ := List.forall_mem_cons.1 hxs
    -- The chosen value is a number again, so both choices go on from the same one.
    have hchosen : (choose x y).isNaN = false := by rw [hchoose.isNaN, hx, hy, Bool.or_self]
    rw [List.foldl_cons, List.foldl_cons, hsame x y hx hy]
    exact ih (List.forall_mem_cons.2 ⟨hchosen, hmore⟩)

section Ends

variable {x : Float} {xs : List Float} (h : ∀ y ∈ x :: xs, y.isNaN = false)

include h

theorem foldl_lesser : xs.foldl lesser x = xs.foldl Frames.lower x := by
  apply foldl_same Frames.chooses_lower _ h
  intro a b ha hb
  unfold lesser Frames.lower
  rw [ha, hb]
  rfl

theorem foldl_greater : xs.foldl greater x = xs.foldl Frames.upper x := by
  apply foldl_same Frames.chooses_upper _ h
  intro a b ha hb
  unfold greater Frames.upper
  rw [ha, hb]
  rfl

/-- **The least value is the first rank.** -/
theorem agree_foldl_lesser : Agree (xs.foldl lesser x) (rank (sort (x :: xs)) 0) := by
  rw [foldl_lesser h]
  have hfirst : 0 < (x :: xs).length := Nat.succ_pos _
  obtain ⟨i, hi, hrank⟩ := exists_rank_eq (Frames.chooses_lower.foldl_mem x xs)
  apply agree_of_le
  · exact Frames.chooses_lower.before_foldl x xs h _ (rank_mem hfirst)
  · rw [← hrank]
    exact rank_le_rank h (Nat.zero_le i) hi

/-- **The greatest value is the last rank.** -/
theorem agree_foldl_greater : Agree (xs.foldl greater x) (rank (sort (x :: xs)) xs.length) := by
  rw [foldl_greater h]
  have hlast : xs.length < (x :: xs).length := Nat.lt_succ_self _
  obtain ⟨i, hi, hrank⟩ := exists_rank_eq (Frames.chooses_upper.foldl_mem x xs)
  apply agree_of_le
  · rw [← hrank]
    exact rank_le_rank h (Nat.le_of_lt_succ hi) hlast
  · exact Frames.chooses_upper.before_foldl x xs h _ (rank_mem hlast)

end Ends

section Folds

variable {values : List Float} (hne : values ≠ []) (hnumbers : ∀ x ∈ values, x.isNaN = false)

include hne hnumbers

theorem exists_minimum : ∃ m, minimum values = .ok m ∧ Agree m (rank (sort values) 0) := by
  obtain ⟨x, xs, rfl⟩ := List.exists_cons_of_ne_nil hne
  exact ⟨_, rfl, agree_foldl_lesser hnumbers⟩

theorem exists_maximum :
    ∃ m, maximum values = .ok m ∧ Agree m (rank (sort values) (values.length - 1)) := by
  obtain ⟨x, xs, rfl⟩ := List.exists_cons_of_ne_nil hne
  exact ⟨_, rfl, agree_foldl_greater hnumbers⟩

end Folds

/-! ### Positions between ranks -/

/-- The value at the position `x` between the ranks `lo` and `hi`. -/
def between (sorted : List Float) (x : Float) (lo hi : ℕ) : Float :=
  if lo = hi then rank sorted lo
  else rank sorted lo + (x - lo.toFloat) * (rank sorted hi - rank sorted lo)

/-- **The two ranks around a position** are the integers below and above it. -/
theorem interpolate_eq (sorted : List Float) {x : Float} {p : ℚ} (hx : rational? x = some p)
    (hp : 0 ≤ p) : interpolate sorted x = between sorted x ⌊p⌋₊ ⌈p⌉₊ := by
  have hread : ∃ negative m e, read x = .finite negative m e ∧ (m : ℚ) * 2 ^ e = p := by
    unfold rational? at hx
    rw [read_eq]
    cases hform : unpack x with
    | notANumber =>
      rw [hform] at hx
      cases hx
    | infinity s =>
      rw [hform] at hx
      cases hx
    | zero s =>
      rw [hform] at hx
      obtain rfl := Option.some.inj hx
      exact ⟨_, _, _, rfl, by rw [Nat.cast_zero, zero_mul]⟩
    | finite s m e hm =>
      rw [hform] at hx
      obtain rfl := Option.some.inj hx
      refine ⟨_, _, _, rfl, ?_⟩
      have hpos : (0 : ℚ) < m * 2 ^ e := mul_pos (Nat.cast_pos.2 hm) (two_zpow_pos e)
      cases s with
      | negative => exact absurd hp (not_le.2 (neg_neg_of_pos hpos))
      | positive => rfl
  obtain ⟨negative, m, e, hread, rfl⟩ := hread
  have hwhole := isWhole_iff m e
  have hle := Nat.floor_le_ceil ((m : ℚ) * 2 ^ e)
  have hnext := Nat.ceil_le_floor_add_one ((m : ℚ) * 2 ^ e)
  unfold interpolate between
  rw [hread]
  simp only [wholePart_eq_natFloor, hwhole]
  split
  · rfl
  · next hne =>
    have hceil : ⌈(m : ℚ) * 2 ^ e⌉₊ = ⌊(m : ℚ) * 2 ^ e⌋₊ + 1 := by omega
    rw [hceil]

/-- A number held between zero and a finite top is finite. -/
theorem exists_rational?_clamp {top x : Float} {t : ℚ} (htop : rational? top = some t) (ht : 0 ≤ t)
    (hx : x.isNaN = false) : ∃ p, rational? (clamp top x) = some p ∧ 0 ≤ p ∧ p ≤ t := by
  have hzero : rational? 0 = some 0 := rfl
  have hNaN := isNaN_of_rational? htop
  unfold clamp
  simp only
  by_cases habove : top < x
  · have hnot : ¬ top < 0 := by
      rw [lt_iff_of_rational? htop hzero]
      exact not_lt.2 ht
    rw [if_pos habove, if_neg hnot]
    exact ⟨t, htop, ht, le_refl t⟩
  · rw [if_neg habove]
    by_cases hbelow : x < 0
    · rw [if_pos hbelow]
      exact ⟨0, hzero, le_refl 0, ht⟩
    · rw [if_neg hbelow]
      exact exists_rational? hzero htop ((not_lt_iff hx (isNaN_of_rational? hzero)).1 hbelow)
        ((not_lt_iff hNaN hx).1 habove)

/-- What is between zero and the top stays. -/
theorem clamp_eq {top x : Float} {t p : ℚ} (htop : rational? top = some t) (hx : rational? x = some p)
    (hp : 0 ≤ p) (hpt : p ≤ t) : clamp top x = x := by
  have hzero : rational? 0 = some 0 := rfl
  have habove : ¬ top < x := by
    rw [lt_iff_of_rational? htop hx]
    exact not_lt.2 hpt
  have hbelow : ¬ x < 0 := by
    rw [lt_iff_of_rational? hx hzero]
    exact not_lt.2 hp
  unfold clamp
  simp only
  rw [if_neg habove, if_neg hbelow]

/-- Where a quantile is looked for. -/
def position (count : ℕ) (q : Float) : Float :=
  clamp (count - 1).toFloat (q * (count - 1).toFloat)

theorem quantile_eq {values : List Float} (hne : values ≠ []) (q : Float) :
    quantile values q = .ok (interpolate (sort values) (position values.length q)) := by
  have hlength : 1 ≤ values.length := List.length_pos_iff.2 hne
  unfold quantile require
  rw [if_neg (by omega)]
  rfl

theorem median_eq {values : List Float} (hne : values ≠ []) : median values = .ok (middle values) := by
  have hlength : 1 ≤ values.length := List.length_pos_iff.2 hne
  unfold median require
  rw [if_neg (by omega)]
  rfl

/-! ### Permutations -/

section Permutation

variable {values values' : List Float} (hnumbers : ∀ x ∈ values, x.isNaN = false)
  (hperm : (values.map unsignZero).Perm (values'.map unsignZero))

include hperm

theorem length_eq_of_perm : values.length = values'.length := by
  have hlength := hperm.length_eq
  rwa [List.length_map, List.length_map] at hlength

include hnumbers

theorem numbers_of_perm : ∀ x ∈ values', x.isNaN = false := by
  intro x' hx'
  obtain ⟨x, hx, hsame⟩ := List.mem_map.1 (hperm.mem_iff.2 (List.mem_map_of_mem hx'))
  rw [← (agree_unsignZero x').isNaN_eq, ← hsame, (agree_unsignZero x).isNaN_eq, hnumbers x hx]

/-- **The ranks of a sample are those of its permutations.** -/
theorem agree_rank (i : ℕ) : Agree (rank (sort values) i) (rank (sort values') i) := by
  have hnumbers' := numbers_of_perm hnumbers hperm
  have hlength := length_eq_of_perm hperm
  let stands : Float → ℤ ×ₗ ℤ ×ₗ ℤ := fun x => height (unpack x)
  have hunsigned : ∀ l : List Float, (l.map unsignZero).map stands = l.map stands := by
    intro l
    rw [List.map_map]
    exact List.map_congr_left fun x _ => (agree_unsignZero x).height_eq
  have hascending : ∀ {l : List Float}, (∀ x ∈ l, x.isNaN = false) →
      ((sort l).map stands).Pairwise (· ≤ ·) := by
    intro l hl
    rw [List.pairwise_map]
    exact (ascending_sort hl).imp fun hle => (le_iff.1 hle).2.2
  -- Both samples are at the same heights in ascending order.
  have hpermuted : (values.map stands).Perm (values'.map stands) := by
    rw [← hunsigned values, ← hunsigned values']
    exact hperm.map stands
  have hheights : (sort values).map stands = (sort values').map stands := by
    apply List.Perm.eq_of_pairwise (fun _ _ _ _ => le_antisymm) (hascending hnumbers)
      (hascending hnumbers')
    exact ((perm_sort values).map stands).trans
      (hpermuted.trans ((perm_sort values').symm.map stands))
  have hsame : ∀ l, stands (rank l i) = (l.map stands).getD i (stands notANumber) :=
    fun l => (List.getD_map l notANumber stands).symm
  rcases lt_or_ge i values.length with hi | hi
  · apply agree_of_height (hnumbers _ (rank_mem hi)) (hnumbers' _ (rank_mem (hlength ▸ hi)))
    show stands _ = stands _
    rw [hsame, hsame, hheights]
  · have hbeyond : ∀ l : List Float, l.length ≤ i → rank (sort l) i = notANumber := by
      intro l hl
      apply List.getD_eq_default
      rwa [length_sort]
    rw [hbeyond values hi, hbeyond values' (hlength ▸ hi)]
    exact .refl _

theorem agree_middle : Agree (middle values) (middle values') := by
  have hrank := agree_rank hnumbers hperm
  unfold middle
  simp only [length_sort, ← length_eq_of_perm hperm]
  split
  · exact hrank _
  · exact ((hrank _).add (hrank _)).div 2

theorem agree_interpolate (x : Float) :
    Agree (interpolate (sort values) x) (interpolate (sort values') x) := by
  have hrank := agree_rank hnumbers hperm
  unfold interpolate
  split
  · simp only
    split
    · exact hrank _
    · exact (hrank _).add ((Agree.refl _).mul ((hrank _).sub (hrank _)))
  · exact .refl _

end Permutation

/-! ### Four statistics -/

/-- Results that are both there, and the same up to the sign of zero. -/
def Alike (r r' : Except Shortfall Float) : Prop :=
  ∃ x y, r = .ok x ∧ r' = .ok y ∧ Agree x y

section Positions

variable {count : ℕ} (hcount : 0 < count) (hsize : count ≤ 2 ^ 53)

include hcount hsize

theorem rational?_top : rational? (count - 1).toFloat = some ((count - 1 : ℕ) : ℚ) :=
  rational?_toFloat (by omega)

/-- **Positions are finite**, and not beyond the last rank. -/
theorem exists_position {q : Float} (hlow : 0 ≤ q) (hhigh : q ≤ 1) :
    ∃ p, rational? (position count q) = some p ∧ 0 ≤ p ∧ p ≤ (count - 1 : ℕ) := by
  -- The product may be rounded to more than the last rank. It is a number, and so the clamp holds it.
  have hone : rational? 1 = some (((2 ^ 52 : ℕ) : ℚ) * 2 ^ (-52 : ℤ)) := rfl
  obtain ⟨r, hshare, -⟩ := exists_rational? rfl hone hlow hhigh
  exact exists_rational?_clamp (rational?_top hcount hsize) (Nat.cast_nonneg _)
    (isNaN_mul hshare (rational?_top hcount hsize))

/-- A position that is a rank. -/
theorem rational?_position {q : Float} {k : ℕ} (hk : k ≤ count - 1)
    (hproduct : rational? (q * (count - 1).toFloat) = some (k : ℚ)) :
    rational? (position count q) = some (k : ℚ) := by
  unfold position
  rw [clamp_eq (rational?_top hcount hsize) hproduct (Nat.cast_nonneg k) (Nat.cast_le.2 hk), hproduct]

theorem rational?_position_zero : rational? (position count 0) = some ((0 : ℕ) : ℚ) := by
  apply rational?_position hcount hsize (Nat.zero_le _)
  rw [Nat.cast_zero]
  exact rational?_mul_eq_zero rfl (rational?_top hcount hsize) (.inl rfl)

theorem rational?_position_one : rational? (position count 1) = some ((count - 1 : ℕ) : ℚ) := by
  have hone : unpack 1 = .finite .positive (2 ^ 52) (-52) (by decide) := rfl
  apply rational?_position hcount hsize (le_refl _)
  apply rational?_mul_toFloat hone (by omega) (by omega)
  norm_num

theorem rational?_position_half {k : ℕ} (hodd : count = 2 * k + 1) :
    rational? (position count 0.5) = some (k : ℚ) := by
  have hhalf : unpack 0.5 = .finite .positive (2 ^ 52) (-53) (by decide) := rfl
  have htop : count - 1 = 2 * k := by omega
  apply rational?_position hcount hsize (by omega)
  apply rational?_mul_toFloat hhalf (by omega) (by omega)
  have hvalue : (2 : ℚ) ^ ((52 : ℤ) + -53) = 1 / 2 := by norm_num
  rw [hvalue, htop]
  push_cast
  ring

end Positions

/-- At a rank, a quantile is its value. -/
theorem quantile_rank {values : List Float} (hne : values ≠ []) {q : Float} {k : ℕ}
    (hposition : rational? (position values.length q) = some (k : ℚ)) :
    quantile values q = .ok (rank (sort values) k) := by
  rw [quantile_eq hne, interpolate_eq _ hposition (Nat.cast_nonneg k), Nat.floor_natCast,
    Nat.ceil_natCast]
  unfold between
  rw [if_pos rfl]

/-- **Order statistics agree, and ignore order.** For values that are not NaN,

* sorting by the sign of differences is sorting by the order of doubles;
* all four statistics are the same for every permutation, zeros with either sign being the same;

and, if the number of values is a double,

* the minimum is the quantile 0, and the maximum is the quantile 1;
* of an odd number of values the median is the quantile 0.5: one of the values, with no more than half
  of the others below it, and no more than half above it;
* the two ranks of every quantile from 0 to 1 are ranks of the sample, and the same or neighbours. -/
theorem order_statistics {values : List Float} (hne : values ≠ [])
    (hnumbers : ∀ x ∈ values, x.isNaN = false) :
    (sort values = values.mergeSort fun a b => !(0 < a - b)) ∧
    (∀ values', (values.map unsignZero).Perm (values'.map unsignZero) →
      Alike (minimum values) (minimum values') ∧ Alike (maximum values) (maximum values') ∧
      Alike (median values) (median values') ∧ ∀ q, Alike (quantile values q) (quantile values' q)) ∧
    (values.length ≤ 2 ^ 53 →
      Alike (minimum values) (quantile values 0) ∧ Alike (maximum values) (quantile values 1) ∧
      (values.length % 2 = 1 → ∃ m, median values = .ok m ∧ quantile values 0.5 = .ok m ∧
        m ∈ values ∧ values.countP (· < m) ≤ values.length / 2 ∧
        values.countP (m < ·) ≤ values.length / 2) ∧
      ∀ q, 0 ≤ q → q ≤ 1 → ∃ p, rational? (position values.length q) = some p ∧
        ⌊p⌋₊ ≤ ⌈p⌉₊ ∧ ⌈p⌉₊ ≤ ⌊p⌋₊ + 1 ∧ ⌈p⌉₊ < values.length ∧
        quantile values q = .ok (between (sort values) (position values.length q) ⌊p⌋₊ ⌈p⌉₊)) := by
  have hlength : 0 < values.length := List.length_pos_iff.2 hne
  refine ⟨sort_eq_differences hnumbers, ?_, ?_⟩
  · intro values' hperm
    have hne' : values' ≠ [] := by
      rw [← List.length_pos_iff, ← length_eq_of_perm hperm]
      exact hlength
    have hnumbers' := numbers_of_perm hnumbers hperm
    have hsame := length_eq_of_perm hperm
    have hrank := agree_rank hnumbers hperm
    obtain ⟨least, hleast, hfirst⟩ := exists_minimum hne hnumbers
    obtain ⟨least', hleast', hfirst'⟩ := exists_minimum hne' hnumbers'
    obtain ⟨greatest, hgreatest, hlast⟩ := exists_maximum hne hnumbers
    obtain ⟨greatest', hgreatest', hlast'⟩ := exists_maximum hne' hnumbers'
    rw [← hsame] at hlast'
    refine ⟨⟨_, _, hleast, hleast', hfirst.trans ((hrank 0).trans hfirst'.symm)⟩,
      ⟨_, _, hgreatest, hgreatest', hlast.trans ((hrank _).trans hlast'.symm)⟩,
      ⟨_, _, median_eq hne, median_eq hne', agree_middle hnumbers hperm⟩, ?_⟩
    intro q
    refine ⟨_, _, quantile_eq hne q, quantile_eq hne' q, ?_⟩
    rw [hsame]
    exact agree_interpolate hnumbers hperm _
  · intro hsize
    refine ⟨?_, ?_, ?_, ?_⟩
    · obtain ⟨least, hleast, hfirst⟩ := exists_minimum hne hnumbers
      exact ⟨_, _, hleast, quantile_rank hne (rational?_position_zero hlength hsize), hfirst⟩
    · obtain ⟨greatest, hgreatest, hlast⟩ := exists_maximum hne hnumbers
      exact ⟨_, _, hgreatest, quantile_rank hne (rational?_position_one hlength hsize), hlast⟩
    · intro hodd
      obtain ⟨k, hk⟩ : ∃ k, values.length = 2 * k + 1 := ⟨values.length / 2, by omega⟩
      have hmiddle : k < values.length := by omega
      have hmedian : middle values = rank (sort values) k := by
        have hhalf : values.length / 2 = k := by omega
        unfold middle
        simp only [length_sort, hodd, hhalf, if_true]
      refine ⟨rank (sort values) k, ?_, ?_, rank_mem hmiddle, ?_, ?_⟩
      · rw [median_eq hne, hmedian]
      · exact quantile_rank hne (rational?_position_half hlength hsize hk)
      · exact (countP_lt_rank hnumbers hmiddle).trans (by omega)
      · exact (countP_rank_lt hnumbers hmiddle).trans (by omega)
    · intro q hlow hhigh
      obtain ⟨p, hp, hpos, htop⟩ := exists_position hlength hsize hlow hhigh
      have hceil : ⌈p⌉₊ ≤ values.length - 1 := Nat.ceil_le.2 htop
      refine ⟨p, hp, Nat.floor_le_ceil p, Nat.ceil_le_floor_add_one p, by omega, ?_⟩
      rw [quantile_eq hne, interpolate_eq _ hp hpos]

/-- Infinities, a value that is there twice, and zeros with either sign. -/
theorem order_statistics_infinite :
    let values := [infinity, 2, -0.0, -infinity, 2]
    let values' := [2, -infinity, 2, 0.0, infinity]
    (Alike (maximum values) (maximum values') ∧ Alike (median values) (median values') ∧
        Alike (quantile values 0.3) (quantile values' 0.3)) ∧
      Alike (minimum values) (quantile values 0) ∧
      (∃ m, median values = .ok m ∧ quantile values 0.5 = .ok m ∧ m ∈ values ∧
        values.countP (· < m) ≤ 2 ∧ values.countP (m < ·) ≤ 2) ∧
      ∃ p, rational? (position 5 0.3) = some p ∧ ⌈p⌉₊ < 5 ∧
        quantile values 0.3 = .ok (between (sort values) (position 5 0.3) ⌊p⌋₊ ⌈p⌉₊) := by
  intro values values'
  have hnumbers : ∀ x ∈ values, x.isNaN = false := by decide +kernel
  have hperm : (values.map unsignZero).Perm (values'.map unsignZero) := by decide +kernel
  obtain ⟨-, hsame, hall⟩ := order_statistics (List.cons_ne_nil _ _) hnumbers
  obtain ⟨-, hmaximum, hmedian, hquantile⟩ := hsame values' hperm
  obtain ⟨hleast, -, hodd, hranks⟩ := hall (by decide)
  obtain ⟨p, hp, -, -, hlast, heq⟩ := hranks 0.3 (by decide +kernel) (by decide +kernel)
  exact ⟨⟨hmaximum, hmedian, hquantile 0.3⟩, hleast, hodd rfl, p, hp, hlast, heq⟩

end Framewise.Sample
