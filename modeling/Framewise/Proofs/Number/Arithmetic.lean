import Framewise.Proofs.Number.Nearest

/-!
# Arithmetic on doubles

Sums, differences, products and quotients of finite doubles are the exact results, rounded to a nearest
double. With an operand that is not finite no sum and no product is finite.

* `rounds_add`, `rounds_sub`, `rounds_mul`, `rounds_div`: the four operations.
* `isFinite_of_add`, `isFinite_of_mul`, `isFinite_of_div`: finite results have finite operands.
-/

namespace Framewise.Number

open Float.Model (UnpackedFloat)
open Float.Model.UnpackedFloat

/-! ### Rounding exact numbers -/

theorem truncates_value (n : ℕ) (E : ℤ) :
    Truncates (.ofMantissaAndAccuracy n .exact) ((n : ℚ) * 2 ^ E / 2 ^ E) := by
  rw [mul_div_cancel_right₀ _ (two_zpow_pos E).ne']
  exact truncates_exact n

/-- A product of significands is too short to be rounded only where both are, at the least exponent. -/
theorem le_target_mul {m n : ℕ} {e f : ℤ} (hm : IsDouble m e) (hn : IsDouble n f) :
    e + f ≤ target (m * n) (e + f) := by
  have hpos : m * n ≠ 0 := Nat.mul_ne_zero hm.pos.ne' hn.pos.ne'
  have hlong : 2 ^ 52 ≤ m * n → e + f ≤ target (m * n) (e + f) := by
    intro hbits
    have hlog : 52 ≤ (m * n).log2 := (Nat.le_log2 hpos).2 hbits
    exact le_max_of_le_left (by omega)
  rcases Nat.lt_or_ge m (2 ^ 52) with hshort | hm'
  · rcases Nat.lt_or_ge n (2 ^ 52) with hshort' | hn'
    · apply le_max_of_le_right
      rw [hm.normal hshort, hn.normal hshort']
      decide
    · exact hlong (hn'.trans (Nat.le_mul_of_pos_left n hm.pos))
  · exact hlong (hm'.trans (Nat.le_mul_of_pos_right m hn.pos))

theorem log2_shiftLeft {M : ℕ} (hM : 0 < M) (k : ℕ) : (M <<< k).log2 = M.log2 + k := by
  have hself : 2 ^ M.log2 ≤ M := Nat.log2_self_le hM.ne'
  have hnext : M < 2 ^ (M.log2 + 1) := Nat.lt_log2_self
  rw [Nat.shiftLeft_eq]
  apply log2_eq
  · rw [pow_add]
    exact Nat.mul_le_mul_right _ hself
  · rw [add_right_comm, pow_add]
    exact Nat.mul_lt_mul_of_pos_right hnext (Nat.two_pow_pos k)

/-- Rounding an exact significand, however short it is. -/
theorem rounds_exact (s : Sign) {M : ℕ} (hM : 0 < M) (E : ℤ) :
    Rounds (repack (UnpackedFloat.round .binary64 s M E)) (s.apply M * 2 ^ E) := by
  have hvalue := value_aligned s M (sub_le_self E (Int.natCast_nonneg (E - target M E).toNat))
  rw [sub_sub_cancel, Int.toNat_natCast, apply_mul] at hvalue
  rw [← hvalue]
  show Rounds (repack (roundWithAccuracy .binary64 s (M <<< (E - target M E).toNat)
    (E - (E - target M E).toNat) .exact)) _
  refine rounds_round s (truncates_value _ _) ?_
  have hlog := log2_shiftLeft hM (E - target M E).toNat
  unfold target at hlog ⊢
  omega

theorem rounds_normalize (a E : ℤ) :
    Rounds (repack (UnpackedFloat.normalize .binary64 a E .positive)) (a * 2 ^ E) := by
  unfold UnpackedFloat.normalize
  rcases lt_trichotomy a 0 with hlt | rfl | hgt
  · have hcompare : compare a 0 = .lt := Int.compare_eq_lt.2 hlt
    have hvalue : a = Sign.negative.apply ((-a).toNat : ℕ) := by
      show a = -((-a).toNat : ℤ)
      omega
    have hrounds := rounds_exact .negative (show 0 < (-a).toNat by omega) E
    rw [← hvalue] at hrounds
    rw [hcompare]
    exact hrounds
  · have hzero := rounds_self (rational?_repack_zero .positive)
    simpa using hzero
  · have hcompare : compare a 0 = .gt := Int.compare_eq_gt.2 hgt
    have hvalue : a = Sign.positive.apply (a.toNat : ℕ) := by
      show a = (a.toNat : ℤ)
      omega
    have hrounds := rounds_exact .positive (show 0 < a.toNat by omega) E
    rw [← hvalue] at hrounds
    rw [hcompare]
    exact hrounds

/-! ### The four operations -/

section Operations

variable {x y : Float} {p q : ℚ} (hx : rational? x = some p)

include hx

theorem rational?_neg : rational? (-x) = some (-p) := by
  rcases form_of_rational? hx with ⟨s, hu, rfl⟩ | ⟨s, m, e, hd, hu, rfl⟩
  · have hneg : unpack (-x) = .zero (-s) := by
      rw [unpack_neg, hu]
      rfl
    unfold rational?
    rw [hneg, neg_zero]
  · have hneg : unpack (-x) = .finite (-s) m e hd.pos := by
      rw [unpack_neg, hu]
      rfl
    rw [rational?_finite hneg, apply_neg, Int.cast_neg, neg_mul]

theorem rounds_add (hy : rational? y = some q) : Rounds (x + y) (p + q) := by
  show Rounds (repack (add .binary64 (unpack x) (unpack y))) (p + q)
  rcases form_of_rational? hy with ⟨t, hv, rfl⟩ | ⟨t, n, f, hd', hv, hq⟩
  · rw [hv, add_zero]
    rcases form_of_rational? hx with ⟨s, hu, rfl⟩ | ⟨s, m, e, hd, hu, hp⟩
    · have hzero : ∃ r, add .binary64 (.zero s) (.zero t) = .zero r := by
        cases s <;> cases t <;> exact ⟨_, rfl⟩
      obtain ⟨r, hr⟩ := hzero
      rw [hu, hr]
      exact rounds_self (rational?_repack_zero r)
    · rw [hu]
      show Rounds (repack (.finite s m e hd.pos)) p
      rw [← hu, repack_unpack]
      exact rounds_self hx
  · rcases form_of_rational? hx with ⟨s, hu, rfl⟩ | ⟨s, m, e, hd, hu, hp⟩
    · rw [hu, hv, zero_add]
      show Rounds (repack (.finite t n f hd'.pos)) q
      rw [← hv, repack_unpack]
      exact rounds_self hy
    · have hleft := value_aligned s m (min_le_left e f)
      have hright := value_aligned t n (min_le_right e f)
      rw [hu, hv, hp, hq, ← hleft, ← hright, ← add_mul, ← Int.cast_add]
      exact rounds_normalize _ _

/-- A difference is a sum with the negative. -/
theorem rounds_sub (hy : rational? y = some q) : Rounds (x - y) (p - q) := by
  have hdifference : x - y = x + -y := by
    show repack (sub .binary64 (unpack x) (unpack y)) =
      repack (add .binary64 (unpack x) (unpack (-y)))
    rw [unpack_neg, sub_eq_add_negated]
  have hsum := rounds_add hx (rational?_neg hy)
  rwa [← sub_eq_add_neg, ← hdifference] at hsum

theorem rounds_mul (hy : rational? y = some q) : Rounds (x * y) (p * q) := by
  by_cases hzero : p = 0 ∨ q = 0
  · rw [mul_eq_zero.2 hzero]
    exact rounds_self (rational?_mul_eq_zero hx hy hzero)
  · rw [not_or] at hzero
    obtain ⟨s, -, hp⟩ | ⟨s, m, e, hd, hu, rfl⟩ := form_of_rational? hx
    · exact absurd hp hzero.1
    obtain ⟨t, -, hq⟩ | ⟨t, n, f, hd', hv, rfl⟩ := form_of_rational? hy
    · exact absurd hq hzero.2
    have hvalue : (s.apply m : ℚ) * 2 ^ e * (t.apply n * 2 ^ f) =
        (s * t).apply 1 * ((m * n : ℕ) * 2 ^ (e + f)) := by
      rw [apply_mul s, apply_mul t, two_zpow_add]
      have hsign : (s * t).apply 1 = s.apply 1 * t.apply 1 := by
        cases s <;> cases t <;> rfl
      rw [hsign]
      push_cast
      ring
    show Rounds (repack (mul .binary64 (unpack x) (unpack y))) _
    rw [hu, hv, hvalue]
    exact rounds_round (s * t) (truncates_value _ _) (le_target_mul hd hd')

/-- The denominator is a double that is an integer at its exponent, such as two. -/
theorem rounds_div {t : Sign} {n : ℕ} {f : ℤ} {h : 0 < n} (hy : unpack y = .finite t n f h)
    (hf : f ≤ 0) : Rounds (x / y) (p / (t.apply n * 2 ^ f)) := by
  show Rounds (repack (div .binary64 (unpack x) (unpack y))) _
  rcases form_of_rational? hx with ⟨s, hu, rfl⟩ | ⟨s, m, e, hd, hu, rfl⟩
  · rw [hu, hy, zero_div]
    exact rounds_self (rational?_repack_zero (s / t))
  · have hleast : minExponent ≤ e - f := by
      have hleast := hd.least
      omega
    have hvalue : (s.apply m : ℚ) * 2 ^ e / (t.apply n * 2 ^ f) =
        (s / t).apply 1 * (m * 2 ^ e / (n * 2 ^ f)) := by
      rw [apply_mul s, apply_mul t]
      have hsign : (s / t).apply 1 = s.apply 1 * t.apply 1 := by
        cases s <;> cases t <;> rfl
      have hself : (t.apply 1 : ℚ) * t.apply 1 = 1 := by
        cases t <;> norm_num [Sign.apply]
      rw [hsign, mul_div_mul_comm, div_eq_mul_inv (s.apply 1 : ℚ), ← eq_inv_of_mul_eq_one_left hself]
      push_cast
      rfl
    have hdiv : div .binary64 (unpack x) (unpack y) = roundWithAccuracy .binary64 (s / t)
        (divCore .binary64 m e n f).1 (divCore .binary64 m e n f).2.1
        (divCore .binary64 m e n f).2.2 := by
      rw [hu, hy]
      rfl
    obtain ⟨htr, hbits⟩ := divCore_spec hd.pos h hleast rfl
    rw [hdiv, hvalue]
    exact rounds_round (s / t) htr (le_target hbits)

end Operations

/-! ### Operands that are not finite -/

/-- What is not finite stays so. -/
theorem isFinite_of_repack {u : UnpackedFloat} (h : (repack u).isFinite = true) : u.isFinite = true := by
  have hpacked : (unpack (repack u)).isFinite = true := h
  cases u with
  | notANumber =>
    rw [unpack_repack_notANumber] at hpacked
    exact hpacked
  | infinity s =>
    rw [unpack_repack_infinity] at hpacked
    exact hpacked
  | zero s | finite s m e h => rfl

section NotFinite

variable {x y : Float}

/-- **A sum is finite** only if both of its parts are. -/
theorem isFinite_of_add (h : (x + y).isFinite = true) : x.isFinite = true ∧ y.isFinite = true := by
  have hsum : (add .binary64 (unpack x) (unpack y)).isFinite = true := isFinite_of_repack h
  show (unpack x).isFinite = true ∧ (unpack y).isFinite = true
  generalize unpack x = u, unpack y = v at hsum
  cases u with
  | notANumber => cases hsum
  | infinity s =>
    cases v with
    | infinity t =>
      have hsame : (if s == t then UnpackedFloat.infinity s else .notANumber).isFinite = true := hsum
      split at hsame
      · cases hsame
      · cases hsame
    | notANumber | zero t | finite t n f h' => cases hsum
  | zero s | finite s m e hm =>
    cases v with
    | notANumber | infinity t => cases hsum
    | zero t | finite t n f h' => exact ⟨rfl, rfl⟩

/-- So is a product, zero times infinity being NaN. -/
theorem isFinite_of_mul (h : (x * y).isFinite = true) : x.isFinite = true ∧ y.isFinite = true := by
  have hproduct : (mul .binary64 (unpack x) (unpack y)).isFinite = true := isFinite_of_repack h
  show (unpack x).isFinite = true ∧ (unpack y).isFinite = true
  generalize unpack x = u, unpack y = v at hproduct
  cases u with
  | notANumber => cases hproduct
  | infinity s =>
    cases v with
    | notANumber | infinity t | zero t | finite t n f h' => cases hproduct
  | zero s | finite s m e hm =>
    cases v with
    | notANumber | infinity t => cases hproduct
    | zero t | finite t n f h' => exact ⟨rfl, rfl⟩

theorem isFinite_of_div (h : (x / y).isFinite = true) : x.isFinite = true := by
  have hquotient : (div .binary64 (unpack x) (unpack y)).isFinite = true := isFinite_of_repack h
  show (unpack x).isFinite = true
  generalize unpack x = u, unpack y = v at hquotient
  cases u with
  | notANumber => cases hquotient
  | infinity s =>
    cases v with
    | notANumber | infinity t | zero t | finite t n f h' => cases hquotient
  | zero s | finite s m e hm => rfl

end NotFinite

end Framewise.Number
