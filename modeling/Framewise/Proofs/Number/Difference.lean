import Framewise.Proofs.Number.Value

/-!
# The sign of a difference

Two doubles that are not NaN are in the order that the sign of their difference tells, though the
difference is rounded, may be infinite, and is NaN for the same infinity twice. Rounding never gives
zero, since no difference of doubles is below the least double.

* `shifted_bounds`: a shifted significand keeps a bit, and has no more than a double has.
* `sided_round`: a rounded number is on the side of zero that it was on.
* `sub_pos_iff`: the difference is positive where the first double is greater.
-/

namespace Framewise.Number

open Float.Model (UnpackedFloat Format)
open Float.Model.UnpackedFloat

/-! ### Rounding away from zero -/

/-- **A shifted significand keeps a bit**, and has no more of them than the significand of a double. -/
theorem shifted_bounds {M : ℕ} {E : ℤ} (acc : Accuracy) (hM : 0 < M) (hE : minExponent ≤ E) :
    let shifted := shiftToTargetExponent .binary64 M E acc
    0 < shifted.1.mantissa ∧ shifted.1.mantissa < 2 ^ 53 ∧ minExponent ≤ shifted.2 := by
  have hleast : -1074 ≤ E := hE
  have hself : 2 ^ M.log2 ≤ M := Nat.log2_self_le hM.ne'
  have hnext : M < 2 ^ (M.log2 + 1) := Nat.lt_log2_self
  have hshift : (target M E - E).toNat = M.log2 - 52 := by
    show (max ((M.log2 : ℤ) + 1 + E - 53) (-1074) - E).toNat = _
    omega
  have hmantissa : (shiftToTargetExponent .binary64 M E acc).1.mantissa = M / 2 ^ (M.log2 - 52) := by
    show (ExtendedMantissa.ofMantissaAndAccuracy M acc >>> (target M E - E).toNat).mantissa = _
    rw [mantissa_shiftRight, mantissa_ofMantissaAndAccuracy, hshift]
  have hexponent : (shiftToTargetExponent .binary64 M E acc).2 = E + (M.log2 - 52 : ℕ) := by
    show E + (target M E - E).toNat = _
    rw [hshift]
  intro shifted
  refine ⟨?_, ?_, ?_⟩
  · rw [hmantissa]
    apply Nat.div_pos _ (Nat.two_pow_pos _)
    exact (Nat.pow_le_pow_right (by decide) (Nat.sub_le _ _)).trans hself
  · rw [hmantissa, Nat.div_lt_iff_lt_mul (Nat.two_pow_pos _), ← pow_add]
    exact hnext.trans_le (Nat.pow_le_pow_right (by decide) (by omega))
  · rw [hexponent]
    show -1074 ≤ _
    omega

/-- A form on one side of zero. -/
inductive Sided (s : Sign) : UnpackedFloat → Prop
  | infinity : Sided s (.infinity s)
  | finite {m : ℕ} {e : ℤ} (h : 0 < m) : Sided s (.finite s m e h)

/-- A form with a significand that is not too long is packed on its side of zero. -/
theorem sided_repack (s : Sign) {m : ℕ} {e : ℤ} (h : 0 < m) (hm : m < 2 ^ 53)
    (he : minExponent ≤ e) : Sided s (unpack (repack (.finite s m e h))) := by
  rcases lt_or_ge 971 e with hover | hmost
  · rw [unpack_repack_overflow s h hover]
    exact .infinity
  · rcases Nat.lt_or_ge m (2 ^ 52) with hshort | hlong
    · -- A short significand is packed as at the least exponent, where it is the one of a double.
      have hd : IsDouble m minExponent := ⟨h, hm, le_refl _, by decide, fun _ => rfl⟩
      rw [unpack_repack, pack_finite_subnormal s h hshort hmost,
        ← pack_finite_subnormal s h hshort hd.most, ← unpack_repack, unpack_repack_finite s h hd]
      exact .finite h
    · have hd : IsDouble m e := ⟨h, hm, he, hmost, fun hlt => absurd hlt (not_lt.2 hlong)⟩
      rw [unpack_repack_finite s h hd]
      exact .finite h

/-- **A number is rounded to its own side of zero**, if it is a multiple of the least double. -/
theorem sided_round (s : Sign) {M : ℕ} {E : ℤ} (hM : 0 < M) (hE : minExponent ≤ E) :
    Sided s (unpack (repack (UnpackedFloat.round .binary64 s M E))) := by
  have hleast : -1074 ≤ E := hE
  have hexponent : minExponent ≤ E - (E - target M E).toNat := by
    have htarget : -1074 ≤ target M E := le_max_right _ _
    show -1074 ≤ _
    omega
  have hsignificand : 0 < M <<< (E - target M E).toNat := by
    rw [Nat.shiftLeft_eq]
    exact Nat.mul_pos hM (Nat.two_pow_pos _)
  show Sided s (unpack (repack (roundWithAccuracy .binary64 s (M <<< (E - target M E).toNat)
    (E - (E - target M E).toNat) .exact)))
  obtain ⟨hfirst, -, hexponent'⟩ := shifted_bounds .exact hsignificand hexponent
  unfold roundWithAccuracy
  generalize shiftToTargetExponent .binary64 _ _ .exact = first at hfirst hexponent'
  -- Rounding up can give one bit more than a double has, so the significand is shifted again.
  have hrounded : 0 < first.1.roundedMantissa := hfirst.trans_le (le_roundedMantissa _)
  obtain ⟨hsecond, hlength, hexponent''⟩ := shifted_bounds .exact hrounded hexponent'
  simp only
  rw [dif_neg hsecond.ne']
  exact sided_repack s hsecond hlength hexponent''

/-! ### Which side -/

@[simp] theorem sided_infinity_iff {s t : Sign} : Sided s (.infinity t) ↔ s = t := by
  constructor
  · intro h
    cases h
    rfl
  · rintro rfl
    exact .infinity

@[simp] theorem sided_finite_iff {s t : Sign} {m : ℕ} {e : ℤ} {h : 0 < m} :
    Sided s (.finite t m e h) ↔ s = t := by
  constructor
  · intro h
    cases h
    rfl
  · rintro rfl
    exact .finite h

@[simp] theorem not_sided_zero {s t : Sign} : ¬ Sided s (.zero t) := by
  intro h
  cases h

@[simp] theorem not_sided_notANumber {s : Sign} : ¬ Sided s .notANumber := by
  intro h
  cases h

theorem Sided.sign_unique {s t : Sign} {u : UnpackedFloat} (h : Sided s u) (h' : Sided t u) : s = t := by
  cases h with
  | infinity => exact (sided_infinity_iff.1 h').symm
  | finite => exact (sided_finite_iff.1 h').symm

/-- A form is on the positive side of zero if it is higher than zero. -/
theorem sided_iff_height {u : UnpackedFloat} (hu : u.isNaN = false) (s : Sign) :
    Sided .positive u ↔ height (.zero s) < height u := by
  cases u with
  | notANumber => cases hu
  | zero t => simp [height]
  | infinity t | finite t m e h => cases t <;> simp [height, Prod.Lex.toLex_lt_toLex]

/-- The positive doubles. -/
theorem pos_iff (x : Float) : 0 < x ↔ Sided .positive (unpack x) := by
  have hzero : unpack 0 = .zero .positive := rfl
  cases hx : (unpack x).isNaN with
  | true =>
    cases hform : unpack x with
    | notANumber => exact iff_of_false (not_lt_of_isNaN (.inr hx)) not_sided_notANumber
    | infinity s | zero s | finite s m e h =>
      rw [hform] at hx
      cases hx
  | false =>
    rw [sided_iff_height hx .positive, ← hzero, lt_iff]
    exact ⟨fun h => h.2.2, fun h => ⟨rfl, hx, h⟩⟩

/-! ### Differences -/

/-- A significand at a lower exponent. -/
theorem value_aligned (s : Sign) (m : ℕ) {e E : ℤ} (h : E ≤ e) :
    (s.apply (m <<< (e - E).toNat : ℕ) : ℚ) * 2 ^ E = s.apply m * 2 ^ e := by
  have hpow : (2 : ℚ) ^ (e - E).toNat * 2 ^ E = 2 ^ e := by
    rw [← zpow_natCast, ← two_zpow_add]
    congr 1
    omega
  cases s with
  | negative =>
    show ((-((m <<< (e - E).toNat : ℕ) : ℤ) : ℤ) : ℚ) * 2 ^ E = ((-(m : ℤ) : ℤ) : ℚ) * 2 ^ e
    rw [Nat.shiftLeft_eq, ← hpow]
    push_cast
    ring
  | positive =>
    show (((m <<< (e - E).toNat : ℕ) : ℤ) : ℚ) * 2 ^ E = ((m : ℤ) : ℚ) * 2 ^ e
    rw [Nat.shiftLeft_eq, ← hpow]
    push_cast
    ring

/-- A difference of finite forms is positive where the exact one is. -/
theorem sided_sub {s t : Sign} {m n : ℕ} {e f : ℤ} (hm : IsDouble m e) (hn : IsDouble n f) :
    Sided .positive (unpack (repack (sub .binary64 (.finite s m e hm.pos) (.finite t n f hn.pos)))) ↔
      (t.apply n : ℚ) * 2 ^ f < s.apply m * 2 ^ e := by
  have hleast : minExponent ≤ min e f := le_min hm.least hn.least
  have hleft := value_aligned s m (min_le_left e f)
  have hright := value_aligned t n (min_le_right e f)
  rw [← hleft, ← hright, mul_lt_mul_iff_left₀ (two_zpow_pos _), Int.cast_lt]
  -- The significands are subtracted at the lower exponent, so the exact difference is an integer times
  -- a power of two, and its sign is that of the integer.
  show Sided .positive (unpack (repack (UnpackedFloat.normalize .binary64
    (s.apply (m <<< (e - min e f).toNat : ℕ) - t.apply (n <<< (f - min e f).toNat : ℕ))
    (min e f) .positive))) ↔ _
  generalize s.apply (m <<< (e - min e f).toNat : ℕ) = a
  generalize t.apply (n <<< (f - min e f).toNat : ℕ) = b
  unfold UnpackedFloat.normalize
  rcases lt_trichotomy a b with hlt | rfl | hgt
  · have hcompare : compare (a - b) 0 = .lt := by
      rw [Int.compare_eq_lt]
      omega
    have hsided := sided_round .negative (show 0 < (-(a - b)).toNat by omega) hleast
    rw [hcompare]
    refine iff_of_false ?_ (not_lt.2 hlt.le)
    intro hpositive
    cases hpositive.sign_unique hsided
  · have hcompare : compare (a - a) 0 = .eq := by
      rw [Int.compare_eq_eq]
      omega
    rw [hcompare]
    refine iff_of_false ?_ (lt_irrefl a)
    show ¬ Sided .positive (unpack (repack (.zero .positive)))
    rw [unpack_repack_zero]
    exact not_sided_zero
  · have hcompare : compare (a - b) 0 = .gt := by
      rw [Int.compare_eq_gt]
      omega
    have hsided := sided_round .positive (show 0 < (a - b).toNat by omega) hleast
    rw [hcompare]
    exact iff_of_true hsided hgt

/-- A difference of forms, one of which is infinite or zero, is positive where the first one is
higher. -/
theorem sided_sub_of_special {u v : UnpackedFloat} (hu : Form u) (hv : Form v) (hu' : u.isNaN = false)
    (hv' : v.isNaN = false)
    (hspecial : (∀ s m e h, u ≠ .finite s m e h) ∨ ∀ s m e h, v ≠ .finite s m e h) :
    Sided .positive (unpack (repack (sub .binary64 u v))) ↔ height v < height u := by
  have hnegative : -Sign.negative = .positive := rfl
  have hpositive : -Sign.positive = .negative := rfl
  cases hu with
  | notANumber => cases hu'
  | infinity s =>
    cases hv with
    | notANumber => cases hv'
    | infinity t =>
      have hsub : sub .binary64 (.infinity s) (.infinity t) =
          if s == -t then .infinity s else .notANumber := rfl
      rw [hsub]
      cases s <;> cases t <;>
        simp [height, hnegative, hpositive, unpack_repack_infinity, unpack_repack_notANumber,
          Prod.Lex.toLex_lt_toLex]
    | zero t =>
      show Sided .positive (unpack (repack (.infinity s))) ↔ _
      rw [unpack_repack_infinity]
      cases s <;> simp [height, Prod.Lex.toLex_lt_toLex]
    | @finite t n f h hd =>
      show Sided .positive (unpack (repack (.infinity s))) ↔ _
      rw [unpack_repack_infinity]
      cases s <;> cases t <;> simp [height, Prod.Lex.toLex_lt_toLex]
  | zero s =>
    cases hv with
    | notANumber => cases hv'
    | infinity t =>
      show Sided .positive (unpack (repack (.infinity (-t)))) ↔ _
      rw [unpack_repack_infinity]
      cases t <;> simp [height, hnegative, hpositive, Prod.Lex.toLex_lt_toLex]
    | zero t =>
      have hzero : ∃ r, sub .binary64 (.zero s) (.zero t) = .zero r := by
        cases s <;> cases t <;> exact ⟨_, rfl⟩
      obtain ⟨r, hr⟩ := hzero
      rw [hr, unpack_repack_zero]
      exact iff_of_false not_sided_zero (lt_irrefl _)
    | @finite t n f h hd =>
      show Sided .positive (unpack (repack (.finite (-t) n f h))) ↔ _
      rw [unpack_repack_finite (-t) h hd]
      cases t <;> simp [height, hnegative, hpositive, Prod.Lex.toLex_lt_toLex]
  | @finite s m e h hd =>
    cases hv with
    | notANumber => cases hv'
    | infinity t =>
      show Sided .positive (unpack (repack (.infinity (-t)))) ↔ _
      rw [unpack_repack_infinity]
      cases s <;> cases t <;> simp [height, hnegative, hpositive, Prod.Lex.toLex_lt_toLex]
    | zero t =>
      show Sided .positive (unpack (repack (.finite s m e h))) ↔ _
      rw [unpack_repack_finite s h hd]
      exact sided_iff_height rfl t
    | finite t h' hd' =>
      rcases hspecial with hleft | hright
      · exact absurd rfl (hleft s m e h)
      · exact absurd rfl (hright _ _ _ h')

/-- **The difference is positive where the first double is greater.** -/
theorem sub_pos_iff {x y : Float} (hx : x.isNaN = false) (hy : y.isNaN = false) :
    0 < x - y ↔ y < x := by
  have hformx := form_unpack x
  have hformy := form_unpack y
  have hlt : y < x ↔ height (unpack y) < height (unpack x) := by
    rw [lt_iff, hx, hy]
    simp
  rw [pos_iff]
  show Sided .positive (unpack (repack (sub .binary64 (unpack x) (unpack y)))) ↔ _
  by_cases hfinite : (∃ s m e h, unpack x = .finite s m e h) ∧ ∃ s m e h, unpack y = .finite s m e h
  · obtain ⟨⟨s, m, e, h, hu⟩, t, n, f, h', hv⟩ := hfinite
    rw [lt_iff_of_rational? (rational?_finite hv) (rational?_finite hu)]
    rw [hu] at hformx
    rw [hv] at hformy
    obtain _ | _ | _ | ⟨_, _, hd⟩ := hformx
    obtain _ | _ | _ | ⟨_, _, hd'⟩ := hformy
    rw [hu, hv]
    exact sided_sub hd hd'
  · rw [hlt]
    apply sided_sub_of_special hformx hformy hx hy
    simpa only [not_and_or, not_exists] using hfinite

end Framewise.Number
