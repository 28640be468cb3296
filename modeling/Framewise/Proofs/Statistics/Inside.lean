import Framewise.Proofs.Number.Arithmetic
import Framewise.Proofs.Statistics.Ranks

/-!
# Statistics between the least and the greatest value

The median halves the sum of two ranks, and a quantile adds a share of the difference of two ranks to
the lower one. Each step is rounded, and still the result is between the two ranks, unless the sum or
the difference is too large for a double: then the result is infinite.

* `half_sum_between`: half the sum of two doubles.
* `share_le`: a share of a rounded difference, which may be greater than the exact one.
* `interpolated_between`: the lower of two doubles and a share of their difference.
* `inside_iff`: which medians and quantiles are between the least and the greatest value.
-/

namespace Framewise.Sample

open Number
open Float.Model (UnpackedFloat)
open Float.Model.UnpackedFloat

/-! ### Half a sum -/

section Sum

variable {x y : Float} {a b : ℚ} (hx : rational? x = some a) (hy : rational? y = some b) (hab : a ≤ b)

include hx hy hab

/-- **Half the sum of two doubles** is between them, if the sum is finite. -/
theorem half_sum_between (hsum : (x + y).isFinite = true) :
    ∃ c, rational? ((x + y) / 2) = some c ∧ a ≤ c ∧ c ≤ b := by
  obtain ⟨total, htotal⟩ := isFinite_iff.1 hsum
  have hnearest := (rounds_add hx hy).nearest htotal
  -- Twice a double is representable, so rounding the sum does not leave the two doubled ends.
  have hlow : 2 * a ≤ total := hnearest.ge (representable_of_rational? hx).double (by linarith)
  have hhigh : total ≤ 2 * b := hnearest.le (representable_of_rational? hy).double (by linarith)
  have htwo : unpack 2 = .finite .positive (2 ^ 52) (-51) (by decide) := rfl
  have hvalue : (Sign.positive.apply (2 ^ 52 : ℕ) : ℚ) * 2 ^ (-51 : ℤ) = 2 := by
    norm_num [Sign.apply]
  have hhalf := rounds_div htotal htwo (by decide)
  rw [hvalue] at hhalf
  exact hhalf.exists_between hx hy (by linarith) (by linarith)

end Sum

/-! ### A share of a difference -/

/-- The next number below a double that is not at the least exponent. -/
theorem exists_lower {m : ℕ} {e : ℤ} (hd : IsDouble m e) (he : minExponent < e) :
    ∃ g, Representable g ∧ g < m * 2 ^ e ∧ m * 2 ^ e - g < 2 ^ (-52 : ℤ) * (m * 2 ^ e) := by
  have hfull : 2 ^ 52 ≤ m := by
    by_contra hshort
    exact he.ne' (hd.normal (not_le.1 hshort))
  have hpos := two_zpow_pos (e - 1)
  have hdouble : (2 : ℚ) ^ e = 2 * 2 ^ (e - 1) := by
    rw [zpow_sub_one₀ two_ne_zero]
    ring
  rcases hfull.eq_or_lt with rfl | hgt
  · -- Below a power of two the distance is half as long.
    refine ⟨((2 ^ 53 - 1 : ℕ) : ℚ) * 2 ^ (e - 1), representable_of_le (by decide) (by omega), ?_, ?_⟩
    · rw [hdouble]
      norm_num
      linarith
    · rw [hdouble]
      norm_num
      linarith
  · have hunit := two_zpow_pos e
    have hless : ((m - 1 : ℕ) : ℚ) * 2 ^ e = m * 2 ^ e - 2 ^ e := by
      rw [Nat.cast_pred (by omega)]
      ring
    have hm : (2 : ℚ) ^ (52 : ℤ) < m := by exact_mod_cast hgt
    have hshort : m - 1 ≤ 2 ^ 53 := (Nat.sub_le m 1).trans hd.lt.le
    refine ⟨((m - 1 : ℕ) : ℚ) * 2 ^ e, representable_of_le hshort he.le, ?_, ?_⟩
    · rw [hless]
      linarith
    · rw [hless, sub_sub_cancel, ← mul_assoc]
      apply lt_mul_of_one_lt_left hunit
      calc (1 : ℚ) = 2 ^ (-52 : ℤ) * 2 ^ (52 : ℤ) := by norm_num
        _ < 2 ^ (-52 : ℤ) * m := mul_lt_mul_of_pos_left hm (two_zpow_pos _)

/-- A share of a positive double, less than the whole, is rounded to less than the double. -/
theorem share_lt {m : ℕ} {e : ℤ} (hd : IsDouble m e) (he : minExponent < e) {share product : ℚ}
    (hshare : Representable share) (hlt : share < 1)
    (hproduct : Nearest product (share * (m * 2 ^ e))) : product < m * 2 ^ e := by
  obtain ⟨g, hg, hbelow, hdistance⟩ := exists_lower hd he
  have hpos : (0 : ℚ) < m * 2 ^ e := value_pos hd
  generalize (m : ℚ) * 2 ^ e = whole at hproduct hbelow hdistance hpos
  by_contra hge
  rw [not_lt] at hge
  have hless := mul_lt_of_lt_one_left hpos hlt
  have hmost := mul_le_mul_of_nonneg_right (hshare.le_of_lt_one hlt) hpos.le
  have hnear := hproduct.near g hg
  rcases le_or_gt (share * whole) g with hle | hgt
  · exact absurd (hproduct.le hg hle) (not_le.2 (hbelow.trans_le hge))
  · rw [abs_of_nonneg (by linarith), abs_of_neg (by linarith)] at hnear
    norm_num at hmost hdistance
    linarith

/-- A multiple of the least double has more bits than a significand, or it is representable. -/
theorem two_zpow_le_of_multiple {v : ℚ} (hv : 0 ≤ v) (hunit : ∃ k : ℤ, v = k * 2 ^ minExponent)
    (h : ¬ Representable v) : (2 : ℚ) ^ (53 + minExponent) ≤ v := by
  obtain ⟨k, rfl⟩ := hunit
  by_contra hfew
  have hk : k < 2 ^ 53 := by
    rw [not_le, two_zpow_add, mul_lt_mul_iff_left₀ (two_zpow_pos _)] at hfew
    exact_mod_cast hfew
  have hk' : 0 ≤ k := by
    have hcast := nonneg_of_mul_nonneg_left hv (two_zpow_pos _)
    exact_mod_cast hcast
  exact h ⟨k, minExponent, rfl, by rwa [abs_of_nonneg hk'], le_rfl⟩

/-- A double with more bits than a significand at the least exponent is not at it. -/
theorem least_lt_of_lt {m : ℕ} {e : ℤ} (hd : IsDouble m e)
    (h : (2 : ℚ) ^ (53 + minExponent) < m * 2 ^ e) : minExponent < e := by
  by_contra hle
  obtain rfl := le_antisymm (not_lt.1 hle) hd.least
  rw [two_zpow_add, mul_lt_mul_iff_left₀ (two_zpow_pos _)] at h
  have hm : 2 ^ 53 < m := by exact_mod_cast h
  exact absurd hd.lt (not_lt.2 hm.le)

/-- **A share of a rounded difference** is at most the exact difference, though the rounded one may be
greater: then the exact one is not representable, and nothing representable is between the two. -/
theorem share_le {d : Float} {whole exact share product : ℚ} (hd : rational? d = some whole)
    (hwhole : Nearest whole exact) (hexact : 0 ≤ exact)
    (hunit : ∃ k : ℤ, exact = k * 2 ^ minExponent) (hshare : Representable share) (hlt : share < 1)
    (hproduct : Nearest product (share * whole)) : product ≤ exact := by
  rcases le_or_gt whole exact with hle | hgt
  · have hnonneg : 0 ≤ whole := hwhole.ge representable_zero hexact
    have hless := mul_le_mul_of_nonneg_right hlt.le hnonneg
    rw [one_mul] at hless
    exact (hproduct.le hwhole.representable hless).trans hle
  · by_contra hbeyond
    have hreached : whole ≤ product := hwhole.le hproduct.representable (not_le.1 hbeyond).le
    have hlarge : (2 : ℚ) ^ (53 + minExponent) < whole :=
      (two_zpow_le_of_multiple hexact hunit fun h => hgt.ne' (hwhole.eq h)).trans_lt hgt
    obtain ⟨m, e, hdouble, rfl⟩ := exists_isDouble hd ((two_zpow_pos _).trans hlarge)
    have hless := share_lt hdouble (least_lt_of_lt hdouble hlarge) hshare hlt hproduct
    exact absurd hless (not_lt.2 hreached)

/-- **The lower of two doubles and a share of their difference**, less than the whole, are between the
two, if the difference is finite. -/
theorem interpolated_between {x y t : Float} {a b share : ℚ} (hx : rational? x = some a)
    (hy : rational? y = some b) (hab : a ≤ b) (ht : rational? t = some share) (hpos : 0 ≤ share)
    (hlt : share < 1) (hdifference : (y - x).isFinite = true) :
    ∃ c, rational? (x + t * (y - x)) = some c ∧ a ≤ c ∧ c ≤ b := by
  obtain ⟨whole, hwhole⟩ := isFinite_iff.1 hdifference
  have hnearest := (rounds_sub hy hx).nearest hwhole
  have hunit : ∃ k : ℤ, b - a = k * 2 ^ minExponent := by
    obtain ⟨k, hk⟩ := (representable_of_rational? hx).multiple
    obtain ⟨l, hl⟩ := (representable_of_rational? hy).multiple
    refine ⟨l - k, ?_⟩
    rw [hk, hl]
    push_cast
    ring
  have hnonneg : 0 ≤ whole := hnearest.ge representable_zero (sub_nonneg.2 hab)
  have hrounds := rounds_mul ht hwhole
  have hless := mul_le_mul_of_nonneg_right hlt.le hnonneg
  rw [one_mul] at hless
  obtain ⟨product, hproduct, hleast, -⟩ :=
    hrounds.exists_between (x := 0) rfl hwhole (mul_nonneg hpos hnonneg) hless
  have hmost : product ≤ b - a :=
    share_le hwhole hnearest (sub_nonneg.2 hab) hunit (representable_of_rational? ht) hlt
      (hrounds.nearest hproduct)
  exact (rounds_add hx hproduct).exists_between hx hy (by linarith) (by linarith)

/-! ### Samples -/

/-- Between the least and the greatest value of a sample. -/
def Inside (values : List Float) (y : Float) : Prop :=
  ∃ least greatest, minimum values = .ok least ∧ maximum values = .ok greatest ∧
    least ≤ y ∧ y ≤ greatest

/-- The two ranks that the median is made of, if no value is in the middle. -/
def middleSum (values : List Float) : Float :=
  rank (sort values) (values.length / 2 - 1) + rank (sort values) (values.length / 2)

section Samples

variable {values : List Float} (hne : values ≠ []) (hfinite : ∀ x ∈ values, x.isFinite = true)

include hfinite

theorem numbers_of_finite : ∀ x ∈ values, x.isNaN = false :=
  fun x hx => isNaN_of_isFinite (hfinite x hx)

theorem exists_rational?_rank {i : ℕ} (hi : i < values.length) :
    ∃ a, rational? (rank (sort values) i) = some a :=
  isFinite_iff.1 (hfinite _ (rank_mem hi))

/-- The ranks of a finite sample ascend as rational numbers. -/
theorem rational?_rank_le {i j : ℕ} (hij : i ≤ j) (hj : j < values.length) {a b : ℚ}
    (ha : rational? (rank (sort values) i) = some a) (hb : rational? (rank (sort values) j) = some b) :
    a ≤ b :=
  (le_iff_of_rational? ha hb).1 (rank_le_rank (numbers_of_finite hfinite) hij hj)

include hne

/-- Inside is between the first and the last rank. -/
theorem inside_iff_ranks {y : Float} : Inside values y ↔
    rank (sort values) 0 ≤ y ∧ y ≤ rank (sort values) (values.length - 1) := by
  have hnumbers := numbers_of_finite hfinite
  obtain ⟨least, hleast, hfirst⟩ := exists_minimum hne hnumbers
  obtain ⟨greatest, hgreatest, hlast⟩ := exists_maximum hne hnumbers
  rw [← hfirst.le_iff (Agree.refl y), ← (Agree.refl y).le_iff hlast]
  constructor
  · rintro ⟨least', greatest', hleast', hgreatest', hlow, hhigh⟩
    obtain rfl := Except.ok.inj (hleast.symm.trans hleast')
    obtain rfl := Except.ok.inj (hgreatest.symm.trans hgreatest')
    exact ⟨hlow, hhigh⟩
  · rintro ⟨hlow, hhigh⟩
    exact ⟨least, greatest, hleast, hgreatest, hlow, hhigh⟩

/-- What is inside a finite sample is finite. -/
theorem isFinite_of_inside {y : Float} (h : Inside values y) : y.isFinite = true := by
  have hpos : 0 < values.length := List.length_pos_iff.2 hne
  obtain ⟨hlow, hhigh⟩ := (inside_iff_ranks hne hfinite).1 h
  obtain ⟨a, ha⟩ := exists_rational?_rank hfinite hpos
  obtain ⟨b, hb⟩ := exists_rational?_rank hfinite (Nat.sub_lt hpos Nat.one_pos)
  obtain ⟨c, hc, -⟩ := exists_rational? ha hb hlow hhigh
  exact isFinite_iff.2 ⟨c, hc⟩

/-- What is between two ranks is inside. -/
theorem inside_of_ranks {y : Float} {i j : ℕ} (hi : i < values.length) (hj : j < values.length)
    (hlow : rank (sort values) i ≤ y) (hhigh : y ≤ rank (sort values) j) : Inside values y := by
  have hnumbers := numbers_of_finite hfinite
  rw [inside_iff_ranks hne hfinite]
  constructor
  · exact Number.le_trans (rank_le_rank hnumbers (Nat.zero_le i) hi) hlow
  · exact Number.le_trans hhigh (rank_le_rank hnumbers (by omega) (by omega))

/-- A rank is inside. -/
theorem inside_rank {i : ℕ} (hi : i < values.length) : Inside values (rank (sort values) i) := by
  have hself := le_self (numbers_of_finite hfinite _ (rank_mem hi))
  exact inside_of_ranks hne hfinite hi hi hself hself

/-- What is between two ranks as a rational number is inside. -/
theorem inside_of_rational? {y : Float} {i j : ℕ} (hi : i < values.length) (hj : j < values.length)
    {a b : ℚ} (ha : rational? (rank (sort values) i) = some a)
    (hb : rational? (rank (sort values) j) = some b)
    (hy : ∃ c, rational? y = some c ∧ a ≤ c ∧ c ≤ b) : Inside values y := by
  obtain ⟨c, hc, hac, hcb⟩ := hy
  exact inside_of_ranks hne hfinite hi hj ((le_iff_of_rational? ha hc).2 hac)
    ((le_iff_of_rational? hc hb).2 hcb)

/-! ### The median -/

/-- **The median is inside, or not finite**: it is inside unless it is half a sum that is not finite. -/
theorem inside_middle_iff :
    (Inside values (middle values) ↔ (middle values).isFinite = true) ∧
    ((middle values).isFinite = true ↔
      values.length % 2 = 1 ∨ (middleSum values).isFinite = true) := by
  have hpos : 0 < values.length := List.length_pos_iff.2 hne
  have hinside : values.length % 2 = 1 ∨ (middleSum values).isFinite = true →
      Inside values (middle values) := by
    unfold middle
    simp only [length_sort]
    intro h
    split
    · exact inside_rank hne hfinite (by omega)
    · next heven =>
      have hlower : values.length / 2 - 1 < values.length := by omega
      have hupper : values.length / 2 < values.length := by omega
      obtain ⟨a, ha⟩ := exists_rational?_rank hfinite hlower
      obtain ⟨b, hb⟩ := exists_rational?_rank hfinite hupper
      have hab := rational?_rank_le hfinite (Nat.sub_le _ 1) hupper ha hb
      exact inside_of_rational? hne hfinite hlower hupper ha hb
        (half_sum_between ha hb hab (h.resolve_left heven))
  have hsum : (middle values).isFinite = true →
      values.length % 2 = 1 ∨ (middleSum values).isFinite = true := by
    unfold middle
    simp only [length_sort]
    intro h
    split at h
    · next hodd => exact .inl hodd
    · exact .inr (isFinite_of_div h)
  exact ⟨⟨isFinite_of_inside hne hfinite, fun h => hinside (hsum h)⟩,
    ⟨hsum, fun h => isFinite_of_inside hne hfinite (hinside h)⟩⟩

/-! ### Quantiles -/

/-- **The value at a position is inside, or not finite**: it is inside unless the two ranks around the
position have a difference that is not finite. -/
theorem inside_between_iff {x : Float} {p : ℚ} (hx : rational? x = some p) (hp : 0 ≤ p)
    (htop : ⌈p⌉₊ < values.length) (hsize : values.length ≤ 2 ^ 53) :
    (Inside values (between (sort values) x ⌊p⌋₊ ⌈p⌉₊) ↔
      (between (sort values) x ⌊p⌋₊ ⌈p⌉₊).isFinite = true) ∧
    ((between (sort values) x ⌊p⌋₊ ⌈p⌉₊).isFinite = true ↔
      ⌊p⌋₊ = ⌈p⌉₊ ∨ (rank (sort values) ⌈p⌉₊ - rank (sort values) ⌊p⌋₊).isFinite = true) := by
  have hle := Nat.floor_le_ceil p
  have hlower : ⌊p⌋₊ < values.length := hle.trans_lt htop
  have hinside : ⌊p⌋₊ = ⌈p⌉₊ ∨ (rank (sort values) ⌈p⌉₊ - rank (sort values) ⌊p⌋₊).isFinite = true →
      Inside values (between (sort values) x ⌊p⌋₊ ⌈p⌉₊) := by
    unfold between
    intro h
    split
    · exact inside_rank hne hfinite hlower
    · next hne' =>
      have hfloor : rational? (⌊p⌋₊).toFloat = some (⌊p⌋₊ : ℚ) := rational?_toFloat (by omega)
      have hfraction : 0 ≤ p - ⌊p⌋₊ := sub_nonneg.2 (Nat.floor_le hp)
      have hlt : p - ⌊p⌋₊ < 1 := by linarith [Nat.lt_floor_add_one p]
      -- The distance from the lower rank is exact, so it is less than one after rounding too.
      have hshare : rational? (x - (⌊p⌋₊).toFloat) = some (p - ⌊p⌋₊) := by
        apply (rounds_sub hx hfloor).rational?_eq ((representable_of_rational? hx).fraction hp)
        rw [abs_of_nonneg hfraction]
        exact hlt.trans (one_lt_zpow₀ one_lt_two (by norm_num))
      obtain ⟨a, ha⟩ := exists_rational?_rank hfinite hlower
      obtain ⟨b, hb⟩ := exists_rational?_rank hfinite htop
      have hab := rational?_rank_le hfinite hle htop ha hb
      exact inside_of_rational? hne hfinite hlower htop ha hb
        (interpolated_between ha hb hab hshare hfraction hlt (h.resolve_left hne'))
  have hdifference : (between (sort values) x ⌊p⌋₊ ⌈p⌉₊).isFinite = true →
      ⌊p⌋₊ = ⌈p⌉₊ ∨ (rank (sort values) ⌈p⌉₊ - rank (sort values) ⌊p⌋₊).isFinite = true := by
    unfold between
    intro h
    split at h
    · next heq => exact .inl heq
    · exact .inr (isFinite_of_mul (isFinite_of_add h).2).2
  exact ⟨⟨isFinite_of_inside hne hfinite, fun h => hinside (hdifference h)⟩,
    ⟨hdifference, fun h => isFinite_of_inside hne hfinite (hinside h)⟩⟩

omit hfinite hne in
/-- Values up to a quarter of the greatest power of two have sums and differences that are finite. -/
theorem isFinite_of_small {x y : Float} {a b : ℚ} (hx : rational? x = some a)
    (hy : rational? y = some b) (ha : |a| ≤ 2 ^ (1022 : ℤ)) (hb : |b| ≤ 2 ^ (1022 : ℤ)) :
    (x + y).isFinite = true ∧ (x - y).isFinite = true := by
  have hdouble : (2 : ℚ) ^ (1023 : ℤ) = 2 ^ (1022 : ℤ) + 2 ^ (1022 : ℤ) := by
    rw [← two_mul, mul_comm]
    exact two_zpow_add 1022 1
  constructor
  · apply (rounds_add hx hy).isFinite
    rw [hdouble]
    exact (abs_add_le a b).trans (add_le_add ha hb)
  · apply (rounds_sub hx hy).isFinite
    rw [hdouble]
    exact (abs_sub a b).trans (add_le_add ha hb)

end Samples

/-- **Order statistics between the least and the greatest value.** For finite values,

* the median is between the least and the greatest one where it is finite, which it always is for an odd
  number of values; for an even number it is finite where the sum of the two values in the middle is;
* if the number of values is a double, a quantile from 0 to 1 is between them where it is finite, which it
  always is at a rank; between two ranks it is finite where their difference is;
* so all of these are finite and between them if no value is beyond `2 ^ 1022`. -/
theorem statistics_inside_iff {values : List Float} (hne : values ≠ [])
    (hfinite : ∀ x ∈ values, x.isFinite = true) :
    (∃ center, median values = .ok center ∧
      (Inside values center ↔ center.isFinite = true) ∧
      (center.isFinite = true ↔ values.length % 2 = 1 ∨ (middleSum values).isFinite = true)) ∧
    (values.length ≤ 2 ^ 53 → ∀ q, 0 ≤ q → q ≤ 1 →
      ∃ p y, rational? (position values.length q) = some p ∧ quantile values q = .ok y ∧
        (Inside values y ↔ y.isFinite = true) ∧
        (y.isFinite = true ↔
          ⌊p⌋₊ = ⌈p⌉₊ ∨ (rank (sort values) ⌈p⌉₊ - rank (sort values) ⌊p⌋₊).isFinite = true)) ∧
    ((∀ x ∈ values, ∃ a, rational? x = some a ∧ |a| ≤ 2 ^ (1022 : ℤ)) →
      (∃ center, median values = .ok center ∧ Inside values center) ∧
      (values.length ≤ 2 ^ 53 → ∀ q, 0 ≤ q → q ≤ 1 →
        ∃ y, quantile values q = .ok y ∧ Inside values y)) := by
  have hpos : 0 < values.length := List.length_pos_iff.2 hne
  have hmedian := inside_middle_iff hne hfinite
  have hquantile : values.length ≤ 2 ^ 53 → ∀ q, 0 ≤ q → q ≤ 1 → ∃ p y,
      rational? (position values.length q) = some p ∧ ⌈p⌉₊ < values.length ∧
      quantile values q = .ok y ∧ (Inside values y ↔ y.isFinite = true) ∧
        (y.isFinite = true ↔
          ⌊p⌋₊ = ⌈p⌉₊ ∨ (rank (sort values) ⌈p⌉₊ - rank (sort values) ⌊p⌋₊).isFinite = true) := by
    intro hsize q hlow hhigh
    obtain ⟨p, hp, hnonneg, hmost⟩ := exists_position hpos hsize hlow hhigh
    have hceil : ⌈p⌉₊ ≤ values.length - 1 := Nat.ceil_le.2 hmost
    have htop : ⌈p⌉₊ < values.length := by omega
    refine ⟨p, _, hp, htop, ?_, inside_between_iff hne hfinite hp hnonneg htop hsize⟩
    rw [quantile_eq hne, interpolate_eq _ hp hnonneg]
  refine ⟨⟨_, median_eq hne, hmedian⟩, ?_, ?_⟩
  · intro hsize q hlow hhigh
    obtain ⟨p, y, hp, -, hy, hiff⟩ := hquantile hsize q hlow hhigh
    exact ⟨p, y, hp, hy, hiff⟩
  · intro hsmall
    have hranks : ∀ {i j}, i < values.length → j < values.length →
        (rank (sort values) i + rank (sort values) j).isFinite = true ∧
          (rank (sort values) i - rank (sort values) j).isFinite = true := by
      intro i j hi hj
      obtain ⟨a, ha, ha'⟩ := hsmall _ (rank_mem hi)
      obtain ⟨b, hb, hb'⟩ := hsmall _ (rank_mem hj)
      exact isFinite_of_small ha hb ha' hb'
    refine ⟨⟨_, median_eq hne, ?_⟩, ?_⟩
    · rw [hmedian.1, hmedian.2]
      exact .inr (hranks (by omega) (by omega)).1
    · intro hsize q hlow hhigh
      obtain ⟨p, y, -, htop, hy, hinside, hcondition⟩ := hquantile hsize q hlow hhigh
      refine ⟨y, hy, ?_⟩
      rw [hinside, hcondition]
      exact .inr (hranks htop ((Nat.floor_le_ceil p).trans_lt htop)).2

/-- Four values, the two in the middle of which are not neighbours in the list. -/
theorem statistics_inside_iff_of_four :
    let values := [8, 1, 4, 2].map Nat.toFloat
    (∃ center, median values = .ok center ∧ Inside values center) ∧
      ∃ y, quantile values 0.3 = .ok y ∧ Inside values y := by
  intro values
  have hsmall : ∀ x ∈ values, ∃ a, rational? x = some a ∧ |a| ≤ 2 ^ (1022 : ℤ) := by
    intro x hx
    obtain ⟨n, hn, rfl⟩ := List.mem_map.1 hx
    have hle : n ≤ 2 ^ 3 := by
      clear hx
      revert n
      decide
    have hcast : (n : ℚ) ≤ 2 ^ (3 : ℤ) := by exact_mod_cast hle
    refine ⟨n, rational?_toFloat (by omega), ?_⟩
    rw [Nat.abs_cast]
    exact hcast.trans (zpow_le_zpow_right₀ one_le_two (by decide))
  have hfinite : ∀ x ∈ values, x.isFinite = true := by
    intro x hx
    obtain ⟨a, ha, -⟩ := hsmall x hx
    exact isFinite_iff.2 ⟨a, ha⟩
  obtain ⟨-, -, hinside⟩ := statistics_inside_iff (List.cons_ne_nil _ _) hfinite
  obtain ⟨hmedian, hquantile⟩ := hinside hsmall
  exact ⟨hmedian, hquantile (by decide) 0.3 (by decide +kernel) (by decide +kernel)⟩

/-- **Not every median of finite values is between them, nor is every quantile.** Twice the greatest double
has an infinite median, and halfway between the least and the greatest double there is an infinite
quantile. -/
theorem not_statistics_inside :
    (¬ ∀ values : List Float, values ≠ [] → (∀ x ∈ values, x.isFinite = true) →
      ∃ center, median values = .ok center ∧ Inside values center) ∧
    ¬ ∀ values : List Float, values ≠ [] → (∀ x ∈ values, x.isFinite = true) →
      ∀ q, 0 ≤ q → q ≤ 1 → ∃ y, quantile values q = .ok y ∧ Inside values y := by
  constructor
  · intro h
    have hfinite : ∀ x ∈ [1.7976931348623157e308, 1.7976931348623157e308], x.isFinite = true := by
      decide +kernel
    obtain ⟨center, hcenter, hinside⟩ := h _ (List.cons_ne_nil _ _) hfinite
    have hsort : sort [1.7976931348623157e308, 1.7976931348623157e308] = _ :=
      List.mergeSort_of_pairwise (by decide +kernel)
    have hinfinite : median [1.7976931348623157e308, 1.7976931348623157e308] = .ok infinity := by
      rw [median_eq (List.cons_ne_nil _ _), middle, hsort]
      decide +kernel
    obtain rfl := Except.ok.inj (hcenter.symm.trans hinfinite)
    exact absurd (isFinite_of_inside (List.cons_ne_nil _ _) hfinite hinside) (by decide +kernel)
  · intro h
    have hfinite : ∀ x ∈ [-1.7976931348623157e308, 1.7976931348623157e308], x.isFinite = true := by
      decide +kernel
    obtain ⟨y, hy, hinside⟩ := h _ (List.cons_ne_nil _ _) hfinite 0.5 (by decide +kernel)
      (by decide +kernel)
    have hsort : sort [-1.7976931348623157e308, 1.7976931348623157e308] = _ :=
      List.mergeSort_of_pairwise (by decide +kernel)
    have hinfinite : quantile [-1.7976931348623157e308, 1.7976931348623157e308] 0.5 = .ok infinity := by
      rw [quantile_eq (List.cons_ne_nil _ _), hsort]
      decide +kernel
    obtain rfl := Except.ok.inj (hy.symm.trans hinfinite)
    exact absurd (isFinite_of_inside (List.cons_ne_nil _ _) hfinite hinside) (by decide +kernel)

end Framewise.Sample
