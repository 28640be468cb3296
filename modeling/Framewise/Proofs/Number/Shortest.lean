import Framewise.Proofs.Number.Decimal

/-!
# The shortest decimal reads back

`shortest` searches grids of decimals for a point in the interval of a double.

* `gridPoint?_near`: a hit is in the interval.
* `gridPoint?_isSome`: a grid finer than half a unit has a hit.
* `shortest_near`: one of the grids that are tried is so fine, so the shortest decimal is in the
  interval of its double.
-/

namespace Framewise.Number

open Float.Model.UnpackedFloat

/-! ### Points of a grid -/

section Grid

variable (m : ℕ) (e p : ℤ)

/-- The distance of two points of the grid `10 ^ p`, scaled as the search scales it. -/
def gridStep : ℕ := tenPow p.toNat * twoPow (2 - e).toNat

/-- A quarter unit at the exponent `e`, scaled as the search scales it. -/
def gridUnit : ℕ := tenPow (-p).toNat * twoPow (e - 2).toNat

theorem gridUnit_pos : 0 < gridUnit e p :=
  Nat.mul_pos (Nat.pow_pos (by decide)) (Nat.pow_pos (by decide))

theorem gridStep_pos : 0 < gridStep e p :=
  Nat.mul_pos (Nat.pow_pos (by decide)) (Nat.pow_pos (by decide))

theorem zpow_toNat {b : ℚ} (hb : b ≠ 0) (k : ℤ) : b ^ k * b ^ (-k).toNat = b ^ k.toNat := by
  rw [← zpow_natCast, ← zpow_natCast, ← zpow_add₀ hb]
  congr 1
  omega

theorem cast_tenPow (n : ℕ) : ((tenPow n : ℕ) : ℚ) = 10 ^ n := Nat.cast_pow 10 n

theorem cast_twoPow (n : ℕ) : ((twoPow n : ℕ) : ℚ) = 2 ^ n := Nat.cast_pow 2 n

/-- The scaling keeps proportions. -/
theorem gridStep_div_gridUnit : (gridStep e p : ℚ) * 2 ^ (e - 2) = 10 ^ p * gridUnit e p := by
  have h10 := zpow_toNat (by norm_num : (10 : ℚ) ≠ 0) p
  have h2 := zpow_toNat (by norm_num : (2 : ℚ) ≠ 0) (e - 2)
  have hneg : -(e - 2) = 2 - e := by omega
  rw [hneg] at h2
  unfold gridStep gridUnit
  rw [Nat.cast_mul, Nat.cast_mul, cast_tenPow, cast_twoPow, cast_tenPow, cast_twoPow, ← h10, ← h2]
  ring

/-- Quarter units and points of the grid are scaled by the same positive factor. -/
theorem exists_scale : ∃ r : ℚ, 0 < r ∧ ∀ n : ℕ,
    ((n * gridUnit e p : ℕ) : ℚ) = n * 2 ^ (e - 2) * r ∧
    ((n * gridStep e p : ℕ) : ℚ) = n * 10 ^ p * r := by
  have hunit : (0 : ℚ) < gridUnit e p := by exact_mod_cast gridUnit_pos e p
  have hpow := two_zpow_pos (e - 2)
  refine ⟨gridUnit e p / 2 ^ (e - 2), div_pos hunit hpow, fun n => ⟨?_, ?_⟩⟩
  · rw [Nat.cast_mul, mul_assoc, mul_div_cancel₀ _ hpow.ne']
  · rw [Nat.cast_mul, mul_assoc, ← mul_div_assoc, ← gridStep_div_gridUnit,
      mul_div_cancel_right₀ _ hpow.ne']

theorem scaled_le_iff (a c : ℕ) :
    a * gridUnit e p ≤ c * gridStep e p ↔ (a : ℚ) * 2 ^ (e - 2) ≤ c * 10 ^ p := by
  obtain ⟨r, hr, hscale⟩ := exists_scale e p
  rw [← @Nat.cast_le ℚ, (hscale a).1, (hscale c).2, mul_le_mul_iff_of_pos_right hr]

theorem le_scaled_iff (a c : ℕ) :
    c * gridStep e p ≤ a * gridUnit e p ↔ (c : ℚ) * 10 ^ p ≤ a * 2 ^ (e - 2) := by
  obtain ⟨r, hr, hscale⟩ := exists_scale e p
  rw [← @Nat.cast_le ℚ, (hscale a).1, (hscale c).2, mul_le_mul_iff_of_pos_right hr]

/-- Whether a point of the grid lies in the interval, as the search compares it. -/
def inInterval (c : ℕ) : Bool :=
  if m % 2 = 0 then
    lowEnd m e * gridUnit e p ≤ c * gridStep e p && c * gridStep e p ≤ highEnd m * gridUnit e p
  else lowEnd m e * gridUnit e p < c * gridStep e p && c * gridStep e p < highEnd m * gridUnit e p

/-- The search looks at the two points next to the middle, and takes the nearer if both are hits. -/
theorem gridPoint?_eq : gridPoint? m e p =
    match inInterval m e p (4 * m * gridUnit e p / gridStep e p),
      inInterval m e p (4 * m * gridUnit e p / gridStep e p + 1) with
    | true, true => some (nearer (4 * m * gridUnit e p) (gridStep e p)
        (4 * m * gridUnit e p / gridStep e p))
    | true, false => some (4 * m * gridUnit e p / gridStep e p)
    | false, true => some (4 * m * gridUnit e p / gridStep e p + 1)
    | false, false => none := rfl

/-- The nearer of two points is one of them. -/
theorem nearer_eq_or (middle step below : ℕ) :
    nearer middle step below = below ∨ nearer middle step below = below + 1 := by
  unfold nearer
  simp only
  split
  · exact .inl rfl
  · split
    · exact .inr rfl
    · split
      · exact .inl rfl
      · exact .inr rfl

variable {m e p}

/-- The scaled comparison is that with the ends of the interval. -/
theorem near_of_inInterval {c : ℕ} (h : inInterval m e p c = true) :
    Near m e ((c : ℚ) * 10 ^ p) := by
  unfold inInterval at h
  split at h
  · next heven =>
    rw [Bool.and_eq_true, decide_eq_true_eq, decide_eq_true_eq] at h
    refine ⟨(scaled_le_iff e p _ _).1 h.1, (le_scaled_iff e p _ _).1 h.2, ?_, ?_⟩
    · intro hodd
      omega
    · intro hodd
      omega
  · rw [Bool.and_eq_true, decide_eq_true_eq, decide_eq_true_eq, ← not_le, ← not_le,
      le_scaled_iff, scaled_le_iff, not_le, not_le] at h
    exact ⟨h.1.le, h.2.le, fun _ => h.1.ne, fun _ => h.2.ne⟩

/-- **A hit on a grid is in the interval.** -/
theorem gridPoint?_near {c : ℕ} (h : gridPoint? m e p = some c) : Near m e ((c : ℚ) * 10 ^ p) := by
  rw [gridPoint?_eq] at h
  apply near_of_inInterval
  split at h
  · next hbelow habove =>
    obtain rfl := Option.some.inj h
    rcases nearer_eq_or (4 * m * gridUnit e p) (gridStep e p)
      (4 * m * gridUnit e p / gridStep e p) with hc | hc
    · rw [hc]
      exact hbelow
    · rw [hc]
      exact habove
  · next hbelow _ =>
    obtain rfl := Option.some.inj h
    exact hbelow
  · next _ habove =>
    obtain rfl := Option.some.inj h
    exact habove
  · exact absurd h (by simp)

/-- The search looks at the two points next to the middle of the interval. -/
theorem gridPoint?_isSome_of_neighbour
    (h : inInterval m e p (4 * m * gridUnit e p / gridStep e p) = true ∨
      inInterval m e p (4 * m * gridUnit e p / gridStep e p + 1) = true) :
    (gridPoint? m e p).isSome := by
  rw [gridPoint?_eq]
  rcases h with h | h
  · rw [h]
    cases inInterval m e p (4 * m * gridUnit e p / gridStep e p + 1) with
    | true => rfl
    | false => rfl
  · rw [h]
    cases inInterval m e p (4 * m * gridUnit e p / gridStep e p) with
    | true => rfl
    | false => rfl

/-- A grid finer than half a unit has a point in the interval, the first above its middle. -/
theorem gridPoint?_isSome (hm : 0 < m) (hfine : (10 : ℚ) ^ p < 2 ^ (e - 1)) :
    (gridPoint? m e p).isSome := by
  have hstep := gridStep_pos e p
  have hunit := gridUnit_pos e p
  have hscaled : gridStep e p < 2 * gridUnit e p := by
    have hpow : (2 : ℚ) ^ (e - 1) = (2 : ℕ) * 2 ^ (e - 2) := by
      rw [Nat.cast_ofNat, ← zpow_one_add₀ (by norm_num)]
      congr 1
      omega
    have h : ¬ 2 * gridUnit e p ≤ 1 * gridStep e p := by
      rw [scaled_le_iff, not_le, ← hpow, Nat.cast_one, one_mul]
      exact hfine
    omega
  have hmiddle := Nat.div_add_mod (4 * m * gridUnit e p) (gridStep e p)
  have hrest := Nat.mod_lt (4 * m * gridUnit e p) hstep
  have hpoint : (4 * m * gridUnit e p / gridStep e p + 1) * gridStep e p =
      gridStep e p * (4 * m * gridUnit e p / gridStep e p) + gridStep e p := by ring
  have habove : inInterval m e p (4 * m * gridUnit e p / gridStep e p + 1) = true := by
    have hlow : lowEnd m e * gridUnit e p ≤ 4 * m * gridUnit e p := by
      apply Nat.mul_le_mul_right
      exact (lowEnd_lt hm e).le
    have hhigh : highEnd m * gridUnit e p = 4 * m * gridUnit e p + 2 * gridUnit e p := by
      rw [highEnd, add_mul]
    unfold inInterval
    rw [hpoint, hhigh]
    split
    · rw [Bool.and_eq_true, decide_eq_true_eq, decide_eq_true_eq]
      omega
    · rw [Bool.and_eq_true, decide_eq_true_eq, decide_eq_true_eq]
      omega
  exact gridPoint?_isSome_of_neighbour (.inr habove)

end Grid

/-! ### The search -/

/-- A hit of the search is on one of the grids that are tried. -/
theorem searchGrids_hit {m : ℕ} {e p q : ℤ} {c n : ℕ} (h : searchGrids m e n p = some (c, q)) :
    gridPoint? m e q = some c ∧ p - n < q ∧ q ≤ p := by
  induction n generalizing p with
  | zero => exact absurd h (by simp [searchGrids])
  | succ n ih =>
    unfold searchGrids at h
    split at h
    · next c' hhit =>
      obtain ⟨rfl, rfl⟩ := Prod.mk.inj (Option.some.inj h)
      exact ⟨hhit, by omega, le_refl _⟩
    · obtain ⟨hhit, hlow, hhigh⟩ := ih h
      exact ⟨hhit, by omega, by omega⟩

/-- One grid with a point in the interval is enough, if it is among those that are tried. -/
theorem searchGrids_isSome {m : ℕ} {e p q : ℤ} {n : ℕ} (h : (gridPoint? m e q).isSome)
    (hlow : p - n < q) (hhigh : q ≤ p) : (searchGrids m e n p).isSome := by
  induction n generalizing p with
  | zero => omega
  | succ n ih =>
    unfold searchGrids
    split
    · rfl
    · next hmiss =>
      have hne : p ≠ q := by
        rintro rfl
        rw [hmiss] at h
        exact absurd h (by simp)
      exact ih (by omega) (by omega)

/-- Powers of ten under powers of two, by `10 ^ 3 < 2 ^ 10` and `2 ^ 33 < 10 ^ 10`. -/
theorem ten_zpow_lt_two_zpow {p k : ℤ} (hpos : 0 ≤ p → 10 * p < 3 * k)
    (hneg : p < 0 → 33 * p < 10 * k) : (10 : ℚ) ^ p < 2 ^ k := by
  rcases le_or_gt 0 p with hp | hp
  · refine lt_of_pow_lt_pow_left₀ 3 (two_zpow_pos k).le ?_
    obtain ⟨n, rfl⟩ := Int.eq_ofNat_of_zero_le hp
    calc ((10 : ℚ) ^ (n : ℤ)) ^ 3 = (10 ^ 3) ^ n := by
          rw [zpow_natCast, ← pow_mul, ← pow_mul, mul_comm]
      _ ≤ (2 ^ 10) ^ n := by gcongr; norm_num
      _ = 2 ^ (10 * (n : ℤ)) := by
          rw [← pow_mul, ← zpow_natCast]
          push_cast
          rfl
      _ < 2 ^ (3 * k) := two_zpow_lt_iff.2 (hpos hp)
      _ = (2 ^ k) ^ 3 := by
          rw [mul_comm, zpow_mul]
          rfl
  · refine lt_of_pow_lt_pow_left₀ 10 (two_zpow_pos k).le ?_
    obtain ⟨n, rfl⟩ : ∃ n : ℕ, p = -n := ⟨p.natAbs, by omega⟩
    calc ((10 : ℚ) ^ (-(n : ℤ))) ^ 10 = ((10 ^ 10) ^ n)⁻¹ := by
          rw [zpow_neg, zpow_natCast, inv_pow, ← pow_mul, ← pow_mul, mul_comm]
      _ ≤ ((2 ^ 33) ^ n)⁻¹ := by gcongr; norm_num
      _ = 2 ^ (33 * -(n : ℤ)) := by
          rw [← pow_mul, ← zpow_natCast, ← zpow_neg]
          push_cast
          congr 1
          ring
      _ < 2 ^ (10 * k) := two_zpow_lt_iff.2 (hneg hp)
      _ = (2 ^ k) ^ 10 := by
          rw [mul_comm, zpow_mul]
          rfl

section Shortest

variable {m : ℕ} {e : ℤ} (hd : IsDouble m e)

include hd

theorem IsDouble.log2_le : m.log2 ≤ 52 :=
  Number.log2_le hd.pos hd.lt

/-- **The search ends with a hit.** -/
theorem searchGrids_coarseGrid : (searchGrids m e 24 (coarseGrid m e)).isSome := by
  have hlog := hd.log2_le
  have hleast : -1074 ≤ e := hd.least
  have hmost := hd.most
  have hcoarse : coarseGrid m e = ((m.log2 : ℤ) + 2 + e) * 30103 / 100000 + 1 := rfl
  refine @searchGrids_isSome _ _ _ (coarseGrid m e - 23) _ ?_ (by omega) (by omega)
  apply gridPoint?_isSome hd.pos
  apply ten_zpow_lt_two_zpow
  · omega
  · omega

/-- **The shortest decimal is in the interval of its double**, and its exponent is small. -/
theorem shortest_near : Near m e (((shortest m e).1 : ℚ) * 10 ^ (shortest m e).2) ∧
    (shortest m e).2.natAbs ≤ 400 := by
  have hlog := hd.log2_le
  have hleast : -1074 ≤ e := hd.least
  have hmost := hd.most
  have hcoarse : coarseGrid m e = ((m.log2 : ℤ) + 2 + e) * 30103 / 100000 + 1 := rfl
  obtain ⟨⟨c, p⟩, hhit⟩ := Option.isSome_iff_exists.1 (searchGrids_coarseGrid hd)
  have hshortest : shortest m e = (c, p) := by
    rw [shortest, hhit]
    rfl
  obtain ⟨hpoint, hlow, hhigh⟩ := searchGrids_hit hhit
  rw [hshortest]
  refine ⟨gridPoint?_near hpoint, ?_⟩
  simp only
  omega

/-- Zero is not in the interval of a positive double. -/
theorem Near.pos_of_isDouble {c : ℕ} {p : ℤ} (h : Near m e ((c : ℚ) * 10 ^ p)) : 0 < c := by
  apply Nat.pos_of_ne_zero
  rintro rfl
  have hlow := h.low
  have hend : (0 : ℚ) < lowEnd m e * 2 ^ (e - 2) := by
    apply mul_pos _ (two_zpow_pos _)
    exact_mod_cast lowEnd_pos hd.pos e
  rw [Nat.cast_zero, zero_mul] at hlow
  linarith

end Shortest

end Framewise.Number
