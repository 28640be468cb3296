import Mathlib.Data.Int.Log
import Mathlib.Data.Nat.Digits.Defs
import Framewise.Proofs.Number.Spelled

/-!
# Rounding to decimal places

A double is rounded to decimal places by way of a decimal: to the nearest one with so many places, and
from this to the nearest double. Where doubles lie closer together than the decimals, the double is in
whose interval the decimal lies and so stands for no other decimal. Where they lie farther apart, each
of them is near enough to its decimal to be read back from it. In either case rounding again changes
nothing, and the shortest digits of the result do not go beyond the places.

* `exists_near`: every number in the range of doubles has a double in whose interval it lies.
* `le_shortest_of_near`: the shortest decimal has no more places than any decimal in the interval.
* `placed_roundAt`: rounding gives the double nearest to a decimal with so many places.
* `Placed.roundAt_eq`: such a double is not changed by rounding, unless it is an integer.
* `Placed.pointed_chars`: its text has no more places, and no exponent.
-/

namespace Framewise.Number

open Float.Model.UnpackedFloat

/-! ### The nearest double -/

/-- An integer within half a unit, the even one of two. -/
theorem exists_half_unit {t : ℚ} (ht : 0 ≤ t) :
    ∃ n : ℕ, (n : ℚ) - 1 / 2 ≤ t ∧ t ≤ n + 1 / 2 ∧
      (n % 2 = 1 → (n : ℚ) - 1 / 2 ≠ t ∧ t ≠ n + 1 / 2) := by
  have hfloor := Nat.floor_le ht
  have hnext := Nat.lt_floor_add_one t
  generalize ⌊t⌋₊ = f at hfloor hnext
  rcases lt_trichotomy t (f + 1 / 2) with hlow | htie | hhigh
  · exact ⟨f, by linarith, hlow.le, fun _ => ⟨by linarith, hlow.ne⟩⟩
  · rcases Nat.mod_two_eq_zero_or_one f with hf | hf
    · exact ⟨f, by linarith, htie.le, fun hodd => by omega⟩
    · refine ⟨f + 1, ?_, ?_, fun hodd => by omega⟩
      · push_cast
        linarith
      · push_cast
        linarith
  · refine ⟨f + 1, ?_, ?_, fun _ => ⟨?_, ?_⟩⟩
    all_goals push_cast
    · linarith
    · linarith
    · intro heq
      linarith
    · intro heq
      linarith

theorem near_of_scaled {m : ℕ} {e : ℤ} {q : ℚ} (hlow : (lowEnd m e : ℚ) / 4 ≤ q / 2 ^ e)
    (hhigh : q / 2 ^ e ≤ (highEnd m : ℚ) / 4)
    (hodd : m % 2 = 1 → (lowEnd m e : ℚ) / 4 ≠ q / 2 ^ e ∧ q / 2 ^ e ≠ (highEnd m : ℚ) / 4) :
    Near m e q := by
  have hpos := two_zpow_pos e
  have hquarter : ∀ a : ℚ, a * 2 ^ (e - 2) = a / 4 * 2 ^ e := by
    intro a
    rw [zpow_sub₀ (by norm_num)]
    ring
  have hq : q / 2 ^ e * 2 ^ e = q := div_mul_cancel₀ q hpos.ne'
  refine ⟨?_, ?_, fun hm heq => (hodd hm).1 ?_, fun hm heq => (hodd hm).2 ?_⟩
  · rw [hquarter, ← hq]
    exact mul_le_mul_of_nonneg_right hlow hpos.le
  · rw [hquarter, ← hq]
    exact mul_le_mul_of_nonneg_right hhigh hpos.le
  · rw [hquarter, ← hq] at heq
    exact mul_right_cancel₀ hpos.ne' heq
  · rw [hquarter, ← hq] at heq
    exact mul_right_cancel₀ hpos.ne' heq

/-- Away from the powers of two the interval of a double reaches half a unit to both sides. -/
theorem near_of_half_unit {m : ℕ} {e : ℤ} {q : ℚ} (hm : 0 < m) (hne : m ≠ 2 ^ 52)
    (hlow : (m : ℚ) - 1 / 2 ≤ q / 2 ^ e) (hhigh : q / 2 ^ e ≤ m + 1 / 2)
    (hodd : m % 2 = 1 → (m : ℚ) - 1 / 2 ≠ q / 2 ^ e ∧ q / 2 ^ e ≠ m + 1 / 2) : Near m e q := by
  have hend := @lowEnd_div m e hm fun h => hne h.1
  apply near_of_scaled
  · rwa [hend]
  · rwa [highEnd_div]
  · rwa [hend, highEnd_div]

/-- **Every number in the range of doubles is in the interval of one.** Its significand is rounded, to
the even one of two; if this gives one bit too many, the next power of two is meant. -/
theorem exists_near {q : ℚ} (hlow : (2 : ℚ) ^ (-1022 : ℤ) ≤ q) (hhigh : q < 2 ^ (1023 : ℤ)) :
    ∃ m e, IsDouble m e ∧ Near m e q := by
  have hpos : 0 < q := (two_zpow_pos _).trans_le hlow
  have hself : (2 : ℚ) ^ Int.log 2 q ≤ q := Int.zpow_log_le_self one_lt_two hpos
  have hnext : q < (2 : ℚ) ^ (Int.log 2 q + 1) := Int.lt_zpow_succ_log_self one_lt_two q
  generalize Int.log 2 q = k at hself hnext
  have hk := two_zpow_lt_iff.1 (hlow.trans_lt hnext)
  have hk' := two_zpow_lt_iff.1 (hself.trans_lt hhigh)
  have hunit := two_zpow_pos (k - 52)
  have hbelow : (2 : ℚ) ^ (52 : ℤ) ≤ q / 2 ^ (k - 52) := by
    rwa [le_div_iff₀ hunit, ← two_zpow_add, show 52 + (k - 52) = k by omega]
  have habove : q / 2 ^ (k - 52) < (2 : ℚ) ^ (53 : ℤ) := by
    rwa [div_lt_iff₀ hunit, ← two_zpow_add, show 53 + (k - 52) = k + 1 by omega]
  obtain ⟨n, hleft, hright, hodd⟩ := exists_half_unit ((two_zpow_pos 52).le.trans hbelow)
  have hleast : minExponent < k - 52 + 1 := by
    show -1074 < _
    omega
  have hn : 2 ^ 52 ≤ n := by
    have hlt : ((2 ^ 52 : ℕ) : ℚ) < ((n + 1 : ℕ) : ℚ) := by
      norm_num at hbelow
      push_cast
      linarith
    exact Nat.le_of_lt_succ (Nat.cast_lt.1 hlt)
  have hn' : n ≤ 2 ^ 53 := by
    have hlt : (n : ℚ) < ((2 ^ 53 + 1 : ℕ) : ℚ) := by
      norm_num at habove
      push_cast
      linarith
    exact Nat.le_of_lt_succ (Nat.cast_lt.1 hlt)
  rcases hn'.lt_or_eq with hlt | rfl
  · refine ⟨n, k - 52, ⟨by omega, hlt, Int.le_of_lt_add_one hleast, by omega, fun h => by omega⟩, ?_⟩
    rcases eq_or_ne n (2 ^ 52) with rfl | hne
    · have hend : (lowEnd (2 ^ 52) (k - 52) : ℚ) / 4 ≤ 2 ^ (52 : ℤ) := by
        have h := lowEnd_lt (show 0 < 2 ^ 52 by decide) (k - 52)
        have hcast : (lowEnd (2 ^ 52) (k - 52) : ℚ) ≤ ((4 * 2 ^ 52 : ℕ) : ℚ) := Nat.cast_le.2 h.le
        push_cast at hcast
        linarith
      refine near_of_scaled (hend.trans hbelow) ?_ fun h => absurd h (by decide)
      rwa [highEnd_div]
    · exact near_of_half_unit (by omega) hne hleft hright hodd
  · have hhalf : q / 2 ^ (k - 52 + 1) = q / 2 ^ (k - 52) / 2 := by
      rw [two_zpow_add, zpow_one, div_div]
    refine ⟨2 ^ 52, k - 52 + 1, ⟨by decide, by decide, hleast.le, by omega, fun h => by omega⟩, ?_⟩
    apply near_of_scaled
    · rw [lowEnd_div_boundary hleast, hhalf]
      push_cast at hleft
      linarith
    · rw [highEnd_div, hhalf]
      norm_num at habove ⊢
      linarith
    · exact fun h => absurd h (by decide)

/-- What lies between two numbers of an interval is in the interval. -/
theorem Near.between {m : ℕ} {e : ℤ} {q r x : ℚ} (hq : Near m e q) (hr : Near m e r) (hqx : q ≤ x)
    (hxr : x ≤ r) : Near m e x where
  low := hq.low.trans hqx
  high := hxr.trans hr.high
  open_low hm heq := hq.open_low hm (hq.low.antisymm (heq ▸ hqx))
  open_high hm heq := hr.open_high hm (hr.high.antisymm (heq ▸ hxr))

/-- The numbers of an interval are of one size. -/
theorem Near.le_three_mul {m : ℕ} {e : ℤ} {q r : ℚ} (hm : 0 < m) (hq : Near m e q)
    (hr : Near m e r) : r ≤ 3 * q := by
  obtain ⟨hlow, -, -⟩ := hq.half_unit hm
  obtain ⟨-, hhigh, -⟩ := hr.half_unit hm
  have hone : (1 : ℚ) ≤ m := by exact_mod_cast hm
  have hpos := two_zpow_pos e
  rw [le_div_iff₀ hpos] at hlow
  rw [div_le_iff₀ hpos] at hhigh
  calc r ≤ (m + 1 / 2) * 2 ^ e := hhigh
    _ ≤ 3 * ((m - 1 / 2) * 2 ^ e) := by
      rw [← mul_assoc]
      exact mul_le_mul_of_nonneg_right (by linarith) hpos.le
    _ ≤ 3 * q := by linarith

/-! ### Grids with a point in the interval -/

section Grids

variable {m c : ℕ} {e p : ℤ}

/-- The search compares as the interval is defined. -/
theorem inInterval_of_near (h : Near m e ((c : ℚ) * 10 ^ p)) : inInterval m e p c = true := by
  have hlow := (scaled_le_iff e p _ _).2 h.low
  have hhigh := (le_scaled_iff e p _ _).2 h.high
  unfold inInterval
  split
  · rw [Bool.and_eq_true, decide_eq_true_eq, decide_eq_true_eq]
    exact ⟨hlow, hhigh⟩
  · next hodd =>
    have hopen := h.open_low (by omega)
    have hopen' := h.open_high (by omega)
    rw [Bool.and_eq_true, decide_eq_true_eq, decide_eq_true_eq, ← not_le, ← not_le, le_scaled_iff,
      scaled_le_iff]
    exact ⟨fun hle => hopen (h.low.antisymm hle), fun hle => hopen' (h.high.antisymm hle)⟩

/-- A grid with a point in the interval has one next to the middle of the interval, where the search
looks. -/
theorem gridPoint?_isSome_of_near (hd : IsDouble m e) (h : Near m e ((c : ℚ) * 10 ^ p)) :
    (gridPoint? m e p).isSome := by
  have hsplit := Nat.div_add_mod (4 * m * gridUnit e p) (gridStep e p)
  have hrest := Nat.mod_lt (4 * m * gridUnit e p) (gridStep_pos e p)
  have hquarters : (m : ℚ) * 2 ^ e = (4 * m : ℕ) * 2 ^ (e - 2) := by
    rw [zpow_sub₀ (by norm_num)]
    push_cast
    ring
  have hmiddle : Near m e ((4 * m : ℕ) * 2 ^ (e - 2)) := hquarters ▸ hd.near
  have htens : (0 : ℚ) < 10 ^ p := by positivity
  apply gridPoint?_isSome_of_neighbour
  generalize 4 * m * gridUnit e p / gridStep e p = below at hsplit
  -- The point is on one side of the middle, and its neighbour on that side lies between the two.
  rcases Nat.lt_or_ge below c with hlt | hle
  · right
    apply inInterval_of_near
    refine hmiddle.between h ?_ (mul_le_mul_of_nonneg_right (Nat.cast_le.2 hlt) htens.le)
    rw [← scaled_le_iff, Nat.mul_comm (below + 1), Nat.mul_add_one]
    omega
  · left
    apply inInterval_of_near
    refine h.between hmiddle (mul_le_mul_of_nonneg_right (Nat.cast_le.2 hle) htens.le) ?_
    rw [← le_scaled_iff, Nat.mul_comm below]
    omega

/-- The first hit is on a grid no finer than any other hit below the start. -/
theorem le_of_searchGrids {q r : ℤ} {n : ℕ} (h : searchGrids m e n p = some (c, q))
    (hhit : (gridPoint? m e r).isSome) (hr : r ≤ p) : r ≤ q := by
  induction n generalizing p with
  | zero => exact absurd h (by simp [searchGrids])
  | succ n ih =>
    unfold searchGrids at h
    split at h
    · obtain ⟨-, rfl⟩ := Prod.mk.inj (Option.some.inj h)
      exact hr
    · next hmiss =>
      have hne : r ≠ p := by
        rintro rfl
        rw [hmiss] at hhit
        exact absurd hhit Bool.false_ne_true
      exact ih h (by omega)

/-- **The shortest decimal has no more places** than any decimal in the interval. -/
theorem le_shortest_of_near (hd : IsDouble m e) {places : ℕ} (hplaces : places ≤ 300)
    (h : Near m e ((c : ℚ) * 10 ^ (-(places : ℤ)))) : -(places : ℤ) ≤ (shortest m e).2 := by
  have hcoarse : coarseGrid m e = ((m.log2 : ℤ) + 2 + e) * 30103 / 100000 + 1 := rfl
  have hone : (1 : ℚ) ≤ c := by exact_mod_cast h.pos_of_isDouble hd
  have htens : (0 : ℚ) < 10 ^ (-(places : ℤ)) := by positivity
  have hsize : (10 : ℚ) ^ (-(places : ℤ)) < 2 ^ ((m.log2 : ℤ) + 1 + e) :=
    calc (10 : ℚ) ^ (-(places : ℤ)) ≤ c * 10 ^ (-(places : ℤ)) := le_mul_of_one_le_left htens.le hone
      _ < 2 ^ ((m.log2 : ℤ) + 1 + e) := h.lt_two_zpow_log2 hd.pos
  have hstart : -(places : ℤ) ≤ coarseGrid m e := by
    by_contra hlt
    have hpower : (10 : ℚ) ^ (places : ℤ) < 2 ^ (-((m.log2 : ℤ) + 1 + e)) :=
      ten_zpow_lt_two_zpow (by omega) (by omega)
    rw [zpow_neg, lt_inv_comm₀ (by positivity) (two_zpow_pos _), ← zpow_neg] at hpower
    exact lt_asymm hsize hpower
  obtain ⟨⟨c', q⟩, hfound⟩ := Option.isSome_iff_exists.1 (searchGrids_coarseGrid hd)
  have hshortest : shortest m e = (c', q) := by
    rw [shortest, hfound]
    rfl
  rw [hshortest]
  exact le_of_searchGrids hfound (gridPoint?_isSome_of_near hd h) hstart

end Grids

/-! ### Rounding to decimal places -/

/-- The nearest integer to a scaled double is within half a unit. -/
theorem abs_scaleNearest_sub_le (places m : ℕ) (e : ℤ) :
    |(scaleNearest places m e : ℚ) - m * 2 ^ e * 10 ^ places| ≤ 1 / 2 := by
  have hpos : 0 < twoPow (-e).toNat := Nat.two_pow_pos _
  have hpos' : (0 : ℚ) < twoPow (-e).toNat := Nat.cast_pos.2 hpos
  obtain ⟨hlow, hhigh⟩ := divNearest_bounds hpos (m * tenPow places * twoPow e.toNat)
  have hvalue : (m : ℚ) * 2 ^ e * 10 ^ places =
      (m * tenPow places * twoPow e.toNat : ℕ) / (twoPow (-e).toNat : ℕ) := by
    rw [value_eq_div, ← cast_tenPow, div_mul_eq_mul_div, ← Nat.cast_mul, Nat.mul_right_comm]
  rw [hvalue]
  unfold scaleNearest
  generalize m * tenPow places * twoPow e.toNat = a at hlow hhigh
  generalize twoPow (-e).toNat = b at hpos' hlow hhigh
  generalize divNearest a b = n at hlow hhigh
  have hlow' : 2 * ((b : ℚ) * n) ≤ 2 * a + b := by exact_mod_cast hlow
  have hhigh' : 2 * (a : ℚ) < 2 * (b * n) + b := by exact_mod_cast hhigh
  have hbelow : (n : ℚ) - 1 / 2 ≤ a / b := by
    rw [le_div_iff₀ hpos']
    linarith
  have habove : (a : ℚ) / b ≤ n + 1 / 2 := by
    rw [div_le_iff₀ hpos']
    linarith
  rw [abs_le]
  constructor
  · linarith
  · linarith

/-- Only one integer is within half a unit, if it is not halfway to the next. -/
theorem eq_of_abs_sub_lt {n k : ℕ} {t : ℚ} (hn : |(n : ℚ) - t| < 1 / 2) (hk : |(k : ℚ) - t| ≤ 1 / 2) :
    n = k := by
  obtain ⟨hlow, hhigh⟩ := abs_lt.1 hn
  obtain ⟨hlow', hhigh'⟩ := abs_le.1 hk
  have hbelow : (n : ℚ) < ((k + 1 : ℕ) : ℚ) := by
    push_cast
    linarith
  have habove : (k : ℚ) < ((n + 1 : ℕ) : ℚ) := by
    push_cast
    linarith
  have := Nat.cast_lt.1 hbelow
  have := Nat.cast_lt.1 habove
  omega

/-- Powers of two have no fraction digits unless they are small. -/
theorem isWhole_two_pow {e : ℤ} (he : -52 ≤ e) : isWhole (2 ^ 52) e = true := by
  have hdvd : twoPow (-e).toNat ∣ 2 ^ 52 := Nat.pow_dvd_pow 2 (by omega)
  unfold isWhole
  rw [decide_eq_true_eq]
  exact Nat.mod_eq_zero_of_dvd (Dvd.dvd.mul_right hdvd _)

/-- What has fraction digits is less than `2 ^ 52`. -/
theorem value_lt_of_not_isWhole {m : ℕ} {e : ℤ} (hd : IsDouble m e) (h : isWhole m e = false) :
    (m : ℚ) * 2 ^ e < 2 ^ (52 : ℤ) := by
  have he : e < 0 := by
    by_contra hle
    have hone : (-e).toNat = 0 := by omega
    unfold isWhole at h
    rw [hone, decide_eq_false_iff_not] at h
    exact h (Nat.mod_one _)
  have hm : (m : ℚ) < 2 ^ (53 : ℤ) := by exact_mod_cast hd.lt
  calc (m : ℚ) * 2 ^ e < 2 ^ (53 : ℤ) * 2 ^ e := mul_lt_mul_of_pos_right hm (two_zpow_pos e)
    _ = 2 ^ (53 + e) := (two_zpow_add 53 e).symm
    _ ≤ 2 ^ (52 : ℤ) := zpow_le_zpow_right₀ one_le_two (by omega)

/-- Zero is read with any number of places. -/
theorem ofDecimal_zero : ∀ k : Fin 23, ofDecimal 0 (-(k.val : ℤ)) = repack (.zero .positive) := by
  decide +kernel

theorem isInteger_zero {x : Float} {s : Sign} (hx : unpack x = .zero s) : isInteger x = true := by
  unfold isInteger
  rw [read_eq, hx]
  show isWhole 0 minExponent = true
  unfold isWhole
  rw [Nat.zero_mul, Nat.zero_mod]
  rfl

theorem isInteger_finite {x : Float} {s : Sign} {m : ℕ} {e : ℤ} {h : 0 < m}
    (hx : unpack x = .finite s m e h) : isInteger x = isWhole m e := by
  unfold isInteger
  rw [read_eq, hx]
  rfl

/-- What rounding reads back for a finite double. -/
theorem roundAt_finite (places : ℕ) {x : Float} {s : Sign} {m : ℕ} {e : ℤ} {h : 0 < m}
    (hx : unpack x = .finite s m e h) :
    roundAt places x =
      signed (isNegative s) (ofDecimal (scaleNearest places m e) (-(places : ℤ))) := by
  unfold roundAt
  rw [read_eq, hx]
  rfl

/-- A place is a power of ten. -/
theorem mul_place (places : ℕ) (t : ℚ) : t * 10 ^ places * 10 ^ (-(places : ℤ)) = t := by
  rw [zpow_neg, zpow_natCast, mul_assoc, mul_inv_cancel₀ (by positivity), mul_one]

theorem abs_mul_place_sub (places n : ℕ) (t : ℚ) :
    |(n : ℚ) * 10 ^ (-(places : ℤ)) - t| = |n - t * 10 ^ places| * 10 ^ (-(places : ℤ)) := by
  have hpos : (0 : ℚ) < 10 ^ (-(places : ℤ)) := by positivity
  rw [← abs_of_pos hpos, ← abs_mul, abs_of_pos hpos, sub_mul, mul_place]

/-- The nearest decimal is within half a place. -/
theorem abs_nearest_sub_le (places m : ℕ) (e : ℤ) :
    |(scaleNearest places m e : ℚ) * 10 ^ (-(places : ℤ)) - m * 2 ^ e| ≤ 10 ^ (-(places : ℤ)) / 2 := by
  have hpos : (0 : ℚ) < 10 ^ (-(places : ℤ)) := by positivity
  have hhalf := mul_le_mul_of_nonneg_right (abs_scaleNearest_sub_le places m e) hpos.le
  rw [abs_mul_place_sub]
  linarith

/-- Zero, or the double nearest to a decimal with so many places, which is not too large. -/
inductive Placed (places : ℕ) (x : Float) : Prop
  | zero (s : Sign) (h : unpack x = .zero s)
  | nearest (s : Sign) {m n : ℕ} {e : ℤ} (hd : IsDouble m e) (h : unpack x = .finite s m e hd.pos)
      (near : Near m e ((n : ℚ) * 10 ^ (-(places : ℤ))))
      (small : (n : ℚ) * 10 ^ (-(places : ℤ)) < 2 ^ (53 : ℤ))

section Places

variable {places : ℕ} {x : Float}

/-- **Rounding gives** zero or the double nearest to a decimal with so many places. -/
theorem placed_roundAt (hplaces : places ≤ 22) (hx : x.isFinite = true)
    (hfraction : isInteger x = false) : Placed places (roundAt places x) := by
  have hfinite : (unpack x).isFinite = true := hx
  have hform := form_unpack x
  generalize hu : unpack x = u at hform hfinite
  cases hform with
  | notANumber => exact absurd hfinite Bool.false_ne_true
  | infinity s => exact absurd hfinite Bool.false_ne_true
  | zero s =>
    rw [isInteger_zero hu] at hfraction
    cases hfraction
  | @finite s m e h hd =>
    rw [isInteger_finite hu] at hfraction
    have hvalue := value_lt_of_not_isWhole hd hfraction
    have hnearest := (abs_le.1 (abs_nearest_sub_le places m e)).2
    have hread := roundAt_finite places hu
    generalize scaleNearest places m e = n at hnearest hread
    rcases Nat.eq_zero_or_pos n with rfl | hn
    · refine .zero s ?_
      rw [hread, ofDecimal_zero ⟨places, by omega⟩]
      cases s with
      | positive => exact unpack_repack_zero .positive
      | negative =>
        show unpack (-repack (.zero .positive)) = _
        rw [unpack_neg, unpack_repack_zero]
        rfl
    · have hone : (1 : ℚ) ≤ n := by exact_mod_cast hn
      have hpos : (0 : ℚ) < 10 ^ (-(places : ℤ)) := by positivity
      have hplace : (10 : ℚ) ^ (-(places : ℤ)) ≤ 1 := zpow_le_one_of_nonpos₀ (by norm_num) (by omega)
      have hlarge : (2 : ℚ) ^ (-1022 : ℤ) ≤ n * 10 ^ (-(places : ℤ)) := by
        have hpower : (10 : ℚ) ^ (places : ℤ) < 2 ^ (1022 : ℤ) :=
          ten_zpow_lt_two_zpow (by omega) (by omega)
        rw [← inv_lt_inv₀ (two_zpow_pos _) (by positivity), ← zpow_neg, ← zpow_neg] at hpower
        exact hpower.le.trans (le_mul_of_one_le_left hpos.le hone)
      have hsmall : (n : ℚ) * 10 ^ (-(places : ℤ)) < 2 ^ (53 : ℤ) := by
        have hgap : (2 : ℚ) ^ (52 : ℤ) + 1 < 2 ^ (53 : ℤ) := by norm_num
        linarith
      obtain ⟨m', e', hd', hnear⟩ :=
        exists_near hlarge (hsmall.trans (two_zpow_lt_iff.2 (by decide)))
      refine .nearest s hd' ?_ hnear hsmall
      rw [hread]
      exact signed_ofDecimal s hd' hnear (by omega)

section Rounded

variable {m n : ℕ} {e k : ℤ} (hlow : (2 : ℚ) ^ k < 10 ^ (-(places : ℤ)))
  (hhigh : (10 : ℚ) ^ (-(places : ℤ)) < 2 ^ (k + 1)) (hk : -53 ≤ k)

include hlow hhigh hk

/-- **A double in whose interval a decimal lies** is in the interval of the decimal nearest to it. If
doubles lie closer together than decimals, the two decimals are the same; if they lie farther apart,
the interval reaches beyond half a place. -/
theorem near_scaleNearest (hd : IsDouble m e) (hfraction : isWhole m e = false)
    (h : Near m e ((n : ℚ) * 10 ^ (-(places : ℤ)))) :
    Near m e ((scaleNearest places m e : ℚ) * 10 ^ (-(places : ℤ))) := by
  have hunit := two_zpow_pos e
  have hplace : (0 : ℚ) < 10 ^ (-(places : ℤ)) := by positivity
  rcases le_or_gt e k with hfine | hcoarse
  · have hspacing : (2 : ℚ) ^ e < 10 ^ (-(places : ℤ)) :=
      (zpow_le_zpow_right₀ one_le_two hfine).trans_lt hlow
    obtain ⟨hbelow, habove, -⟩ := h.half_unit hd.pos
    rw [le_div_iff₀ hunit] at hbelow
    rw [div_le_iff₀ hunit] at habove
    have hclose : |(n : ℚ) * 10 ^ (-(places : ℤ)) - m * 2 ^ e| < 10 ^ (-(places : ℤ)) / 2 := by
      rw [abs_lt]
      constructor
      · linarith
      · linarith
    have hscaled : |(n : ℚ) - m * 2 ^ e * 10 ^ places| < 1 / 2 := by
      rw [abs_mul_place_sub] at hclose
      rw [← mul_lt_mul_iff_left₀ hplace]
      linarith
    rwa [← eq_of_abs_sub_lt hscaled (abs_scaleNearest_sub_le places m e)]
  · have hspacing : (10 : ℚ) ^ (-(places : ℤ)) < 2 ^ e :=
      hhigh.trans_le (zpow_le_zpow_right₀ one_le_two hcoarse)
    have hne : m ≠ 2 ^ 52 := by
      rintro rfl
      rw [isWhole_two_pow (by omega)] at hfraction
      cases hfraction
    obtain ⟨hbelow, habove⟩ := abs_le.1 (abs_nearest_sub_le places m e)
    generalize (scaleNearest places m e : ℚ) * 10 ^ (-(places : ℤ)) = q at hbelow habove
    have hleft : (m : ℚ) - 1 / 2 < q / 2 ^ e := by
      rw [lt_div_iff₀ hunit]
      linarith
    have hright : q / 2 ^ e < m + 1 / 2 := by
      rw [div_lt_iff₀ hunit]
      linarith
    exact near_of_half_unit hd.pos hne hleft.le hright.le fun _ => ⟨hleft.ne, hright.ne⟩

/-- **Rounding again changes nothing**, unless an integer has come out. -/
theorem Placed.roundAt_eq (hplaces : places ≤ 22) (h : Placed places x) (hfraction : isInteger x = false) :
    roundAt places x = x := by
  cases h with
  | zero s hx =>
    rw [isInteger_zero hx] at hfraction
    cases hfraction
  | @nearest s m n e hd hx hnear _ =>
    rw [isInteger_finite hx] at hfraction
    have hagain := near_scaleNearest hlow hhigh hk hd hfraction hnear
    apply eq_of_unpack
    rw [roundAt_finite places hx, signed_ofDecimal s hd hagain (by omega), hx]

end Rounded

/-- A decimal below a power of ten has no more digits before its point. -/
theorem length_digits_add_le {c : ℕ} {p k : ℤ} (hc : 0 < c) (h : (c : ℚ) * 10 ^ p < 10 ^ k) :
    ((digits c).length : ℤ) + p ≤ k := by
  have htens : (0 : ℚ) < 10 ^ p := by positivity
  have hone : (1 : ℚ) ≤ c := by exact_mod_cast hc
  have hp : p < k := by
    have hpower : (10 : ℚ) ^ p < 10 ^ k := (le_mul_of_one_le_left htens.le hone).trans_lt h
    exact (zpow_lt_zpow_iff_right₀ (by norm_num)).1 hpower
  have hlt : c < 10 ^ (k - p).toNat := by
    have hcast : (10 : ℚ) ^ k = ((10 ^ (k - p).toNat : ℕ) : ℚ) * 10 ^ p := by
      rw [Nat.cast_pow, ← zpow_natCast, Nat.cast_ofNat, ← zpow_add₀ (by norm_num)]
      congr 1
      omega
    rw [hcast, mul_lt_mul_iff_left₀ htens] at h
    exact Nat.cast_lt.1 h
  have hlength : (digits c).length ≤ (k - p).toNat := Nat.toDigits_length 10 c _ (by omega) hlt
  omega

/-- **The text of such a double** has no more places, and no exponent. -/
theorem Placed.pointed_chars (h : Placed places x) (hplaces : places ≤ 6) :
    ∃ sign negative body whole fraction, OptionalSign sign negative ∧ Pointed body whole fraction ∧
      fraction.length ≤ places ∧ chars x = sign ++ body := by
  cases h with
  | zero s hx =>
    have hdigits : Digits ['0'] := ⟨List.cons_ne_nil _ _, List.forall_mem_singleton.2 rfl⟩
    exact ⟨[], false, _, _, [], .absent, .whole hdigits, Nat.zero_le _, chars_zero hx⟩
  | @nearest s m n e hd hx hnear hsmall =>
    obtain ⟨sign, hsign, htext⟩ := exists_withSign (isNegative s)
    have hplace := le_shortest_of_near hd (by omega) hnear
    obtain ⟨hshortest, -⟩ := shortest_near hd
    have hsize := hnear.le_three_mul hd.pos hshortest
    have hc := hshortest.pos_of_isDouble hd
    rw [chars_finite hx, htext]
    generalize (shortest m e).1 = c, (shortest m e).2 = p at hplace hshortest hsize hc
    have hpoint : ((digits c).length : ℤ) + p ≤ 17 := by
      apply length_digits_add_le hc
      have hgap : 3 * (2 : ℚ) ^ (53 : ℤ) < 10 ^ (17 : ℤ) := by norm_num
      linarith
    have hlength : 0 < (digits c).length := List.length_pos_iff.2 (digits_ne_nil c)
    have hfull : plain.InFull ((digits c).length + p) := by
      show 0 < _ ∧ _ ≤ (21 : ℤ) ∨ -(6 : ℤ) < _ ∧ _ ≤ 0
      omega
    obtain ⟨whole, fraction, hpointed, -, hfraction⟩ := pointed_decimal plain c p hfull
    exact ⟨sign, _, _, whole, fraction, hsign, hpointed, by omega, rfl⟩

end Places

end Framewise.Number
