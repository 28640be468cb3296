import Mathlib.Data.Rat.Floor
import Framewise.Proofs.Number.Order
import Framewise.Proofs.Number.Overflow
import Framewise.Proofs.Number.Shortest

/-!
# The numbers that doubles stand for

Finite doubles are ordered as the rational numbers that they stand for, and natural numbers below
`2 ^ 53` are doubles.

* `wholePart_eq_floor`: the whole part of a number, from its significand and exponent.
* `value_le_iff`: significands and exponents in the order of the numbers.
* `le_iff_of_rational?`: the test on doubles is that on rational numbers.
* `agree_of_le`: only zeros are two doubles that are neither less nor greater.
* `rational?_toFloat`: natural numbers as doubles.
* `isNaN_mul`: a product of finite doubles is a number, or infinite.
* `rational?_mul_toFloat`: products of powers of two and natural numbers.
-/

namespace Framewise.Number

open Float.Model (UnpackedFloat Format)
open Float.Model.UnpackedFloat

/-! ### Doubles as rational numbers -/

/-- The rational number that a finite double stands for. -/
def rational? (x : Float) : Option ℚ :=
  match unpack x with
  | .zero _ => some 0
  | .finite s m e _ => some (if isNegative s then -(m * 2 ^ e) else m * 2 ^ e)
  | _ => none

theorem rational?_finite {x : Float} {s : Sign} {m : ℕ} {e : ℤ} {h : 0 < m}
    (hx : unpack x = .finite s m e h) : rational? x = some ((s.apply m : ℚ) * 2 ^ e) := by
  unfold rational?
  rw [hx]
  cases s with
  | negative =>
    show some (-((m : ℚ) * 2 ^ e)) = some (((-(m : ℤ) : ℤ) : ℚ) * 2 ^ e)
    push_cast
    rw [neg_mul]
  | positive => rfl

/-- A rational number without its fraction digits. -/
def towardZero (q : ℚ) : ℤ :=
  if 0 ≤ q then ⌊q⌋ else ⌈q⌉

theorem unpack_infinity : unpack infinity = .infinity .positive := rfl

theorem unpack_neg_infinity : unpack (-infinity) = .infinity .negative := by
  rw [unpack_neg, unpack_infinity]
  rfl

/-- The other doubles are NaN and the infinities. -/
theorem of_rational?_eq_none {x : Float} (h : rational? x = none) :
    x.isNaN = true ∨ x = -infinity ∨ x = infinity := by
  unfold rational? at h
  cases hform : unpack x with
  | notANumber =>
    left
    show (unpack x).isNaN = true
    rw [hform]
    rfl
  | infinity s =>
    right
    cases s with
    | negative => exact .inl (eq_of_unpack (hform.trans unpack_neg_infinity.symm))
    | positive => exact .inr (eq_of_unpack hform)
  | zero s =>
    rw [hform] at h
    cases h
  | finite s m e hpos =>
    rw [hform] at h
    cases h

/-- What a significand and an exponent stand for, as a quotient of natural numbers. -/
theorem value_eq_div (m : ℕ) (e : ℤ) :
    (m : ℚ) * 2 ^ e = (m * twoPow e.toNat : ℕ) / (twoPow (-e).toNat : ℕ) := by
  have hpow := zpow_toNat (by norm_num : (2 : ℚ) ≠ 0) e
  have hpos : (0 : ℚ) < 2 ^ (-e).toNat := by positivity
  rw [Nat.cast_mul, cast_twoPow, cast_twoPow, ← hpow, eq_div_iff hpos.ne']
  ring

/-- The integer part is the greatest integer below. -/
theorem wholePart_eq_floor (m : ℕ) (e : ℤ) : (wholePart m e : ℤ) = ⌊(m : ℚ) * 2 ^ e⌋ := by
  rw [value_eq_div, Rat.floor_natCast_div_natCast]
  rfl

/-- A number loses its fraction digits on either side of zero alike. -/
theorem towardZero_signed (negative : Bool) {m : ℕ} (h : 0 < m) (e : ℤ) :
    towardZero (if negative then -((m : ℚ) * 2 ^ e) else m * 2 ^ e) =
      if negative then -(wholePart m e : ℤ) else wholePart m e := by
  have hpos : (0 : ℚ) < m * 2 ^ e := by positivity
  unfold towardZero
  rw [wholePart_eq_floor]
  cases negative with
  | false => exact if_pos hpos.le
  | true =>
    have hneg : ¬ (0 : ℚ) ≤ -(m * 2 ^ e) := by linarith
    simp only [if_true]
    rw [if_neg hneg, Int.ceil_neg]

/-! ### The order of values -/

section Values

variable {m n : ℕ} {e f : ℤ} (hm : IsDouble m e) (hn : IsDouble n f)

include hm hn

/-- The exponent tells doubles apart first, since a significand has as many bits as it can. -/
theorem value_lt (h : toLex (e, (m : ℤ)) < toLex (f, (n : ℤ))) : (m : ℚ) * 2 ^ e < n * 2 ^ f := by
  rw [Prod.Lex.toLex_lt_toLex] at h
  rcases h with hexp | ⟨hexp, hmantissa⟩
  · have hexp : e < f := hexp
    have hleast : -1074 ≤ e := hm.least
    have hbits : 2 ^ 52 ≤ n := by
      by_contra hlt
      have hf : f = -1074 := hn.normal (not_le.1 hlt)
      omega
    have hm' : (m : ℚ) < 2 ^ (53 : ℤ) := by exact_mod_cast hm.lt
    have hn' : (2 : ℚ) ^ (52 : ℤ) ≤ n := by exact_mod_cast hbits
    calc (m : ℚ) * 2 ^ e < 2 ^ (53 : ℤ) * 2 ^ e := mul_lt_mul_of_pos_right hm' (two_zpow_pos e)
      _ = 2 ^ (53 + e) := (two_zpow_add 53 e).symm
      _ ≤ 2 ^ (52 + f) := zpow_le_zpow_right₀ one_le_two (by omega)
      _ = 2 ^ (52 : ℤ) * 2 ^ f := two_zpow_add 52 f
      _ ≤ n * 2 ^ f := mul_le_mul_of_nonneg_right hn' (two_zpow_pos f).le
  · obtain rfl : e = f := hexp
    have hlt : m < n := Int.ofNat_lt.1 hmantissa
    exact mul_lt_mul_of_pos_right (Nat.cast_lt.2 hlt) (two_zpow_pos e)

end Values

/-- **Positive doubles are in the order of their exponents, and then of their significands.** -/
theorem value_le_iff {m n : ℕ} {e f : ℤ} (hm : IsDouble m e) (hn : IsDouble n f) :
    (m : ℚ) * 2 ^ e ≤ n * 2 ^ f ↔ toLex (e, (m : ℤ)) ≤ toLex (f, (n : ℤ)) := by
  constructor
  · intro h
    by_contra hlt
    exact absurd (value_lt hn hm (not_le.1 hlt)) (not_lt.2 h)
  · intro h
    rcases h.lt_or_eq with hlt | heq
    · exact (value_lt hm hn hlt).le
    · obtain ⟨rfl, hmantissa⟩ := Prod.mk.inj (toLex_inj.1 heq)
      rw [Int.ofNat_inj.1 hmantissa]

theorem value_pos {m : ℕ} {e : ℤ} (h : IsDouble m e) : (0 : ℚ) < m * 2 ^ e :=
  mul_pos (Nat.cast_pos.2 h.pos) (two_zpow_pos e)

/-! ### The order of doubles -/

section Order

variable {x y : Float} {p q : ℚ}

theorem isNaN_of_rational? (hx : rational? x = some p) : x.isNaN = false := by
  unfold rational? at hx
  show (unpack x).isNaN = false
  cases hform : unpack x with
  | notANumber =>
    rw [hform] at hx
    cases hx
  | infinity s | zero s | finite s m e h => rfl

section

variable (hx : rational? x = some p) (hy : rational? y = some q)

include hx hy

theorem height_le_iff : height (unpack x) ≤ height (unpack y) ↔ p ≤ q := by
  unfold rational? at hx hy
  have hformx := form_unpack x
  have hformy := form_unpack y
  generalize unpack x = u at hx hformx
  generalize unpack y = v at hy hformy
  cases hformx with
  | notANumber => cases hx
  | infinity s => cases hx
  | zero s =>
    obtain rfl := Option.some.inj hx
    cases hformy with
    | notANumber => cases hy
    | infinity t => cases hy
    | zero t =>
      obtain rfl := Option.some.inj hy
      exact iff_of_true (le_refl _) (le_refl _)
    | finite t h hn =>
      obtain rfl := Option.some.inj hy
      have hpos := value_pos hn
      cases t with
      | negative => simp [height, isNegative, Prod.Lex.toLex_le_toLex, hpos]
      | positive => simp [height, isNegative, Prod.Lex.toLex_le_toLex, hpos.le]
  | @finite s m e h hm =>
    obtain rfl := Option.some.inj hx
    have hpos := value_pos hm
    cases hformy with
    | notANumber => cases hy
    | infinity t => cases hy
    | zero t =>
      obtain rfl := Option.some.inj hy
      cases s with
      | negative => simp [height, isNegative, Prod.Lex.toLex_le_toLex, hpos.le]
      | positive => simp [height, isNegative, Prod.Lex.toLex_le_toLex, hpos]
    | @finite t n f h' hn =>
      obtain rfl := Option.some.inj hy
      have hpos' := value_pos hn
      cases s with
      | negative =>
        cases t with
        | negative =>
          -- Farther from zero is lower here.
          have hturned := value_le_iff hn hm
          simp only [Prod.Lex.toLex_le_toLex] at hturned
          simp only [height, isNegative, Prod.Lex.toLex_le_toLex, if_true, neg_le_neg_iff, neg_lt_neg_iff,
            neg_inj, hturned, lt_irrefl, false_or, true_and, eq_comm]
        | positive =>
          have hle : -((m : ℚ) * 2 ^ e) ≤ n * 2 ^ f := (neg_neg_of_pos hpos).le.trans hpos'.le
          simp [height, isNegative, Prod.Lex.toLex_le_toLex, hle]
      | positive =>
        cases t with
        | negative =>
          have hlt : -((n : ℚ) * 2 ^ f) < m * 2 ^ e := (neg_neg_of_pos hpos').trans hpos
          simp [height, isNegative, Prod.Lex.toLex_le_toLex, hlt]
        | positive =>
          have hsame := value_le_iff hm hn
          simp [height, isNegative, Prod.Lex.toLex_le_toLex, hsame]

theorem le_iff_of_rational? : x ≤ y ↔ p ≤ q := by
  rw [le_iff, isNaN_of_rational? hx, isNaN_of_rational? hy, height_le_iff hx hy]
  simp

theorem lt_iff_of_rational? : x < y ↔ p < q := by
  rw [← not_le_iff (isNaN_of_rational? hy) (isNaN_of_rational? hx), le_iff_of_rational? hy hx, not_le]

end

/-- Finite doubles lie between the infinite ones. -/
theorem between_infinities (hx : rational? x = some p) : -infinity < x ∧ x < infinity := by
  have hNaN := isNaN_of_rational? hx
  have hlow : height (unpack (-infinity)) < height (unpack x) ∧
      height (unpack x) < height (unpack infinity) := by
    unfold rational? at hx
    rw [unpack_infinity, unpack_neg_infinity]
    generalize unpack x = u at hx
    cases u with
    | notANumber => cases hx
    | infinity s => cases hx
    | zero s => simp [height, Prod.Lex.toLex_lt_toLex]
    | finite s m e h => cases s <;> simp [height, Prod.Lex.toLex_lt_toLex]
  exact ⟨lt_iff.2 ⟨by decide +kernel, hNaN, hlow.1⟩, lt_iff.2 ⟨hNaN, by decide +kernel, hlow.2⟩⟩

/-- What lies between two finite doubles is finite. -/
theorem exists_rational? {z : Float} (hx : rational? x = some p) (hz : rational? z = some q)
    (hxy : x ≤ y) (hyz : y ≤ z) : ∃ r, rational? y = some r ∧ p ≤ r ∧ r ≤ q := by
  cases hy : rational? y with
  | some r => exact ⟨r, rfl, (le_iff_of_rational? hx hy).1 hxy, (le_iff_of_rational? hy hz).1 hyz⟩
  | none =>
    rcases of_rational?_eq_none hy with hNaN | rfl | rfl
    · rw [(le_iff.1 hxy).2.1] at hNaN
      cases hNaN
    · exact absurd (between_infinities hx).1 (Number.not_lt_of_le hxy)
    · exact absurd (between_infinities hz).2 (Number.not_lt_of_le hyz)

/-- Doubles at the same height are the same, or both zero. -/
theorem agree_of_height (hx : x.isNaN = false) (hy : y.isNaN = false)
    (h : height (unpack x) = height (unpack y)) : Agree x y := by
  have hu : (unpack x).isNaN = false := hx
  have hv : (unpack y).isNaN = false := hy
  unfold Agree
  generalize unpack x = u at hu h
  generalize unpack y = v at hv h
  have hparts : ∀ {a b c a' b' c' : ℤ}, toLex (a, toLex (b, c)) = toLex (a', toLex (b', c')) →
      a = a' ∧ b = b' ∧ c = c' := by
    intro a b c a' b' c' heq
    obtain ⟨ha, hrest⟩ := Prod.mk.inj (toLex_inj.1 heq)
    obtain ⟨hb, hc⟩ := Prod.mk.inj (toLex_inj.1 hrest)
    exact ⟨ha, hb, hc⟩
  cases u with
  | notANumber => cases hu
  | infinity s =>
    cases v with
    | notANumber => cases hv
    | infinity t => cases s <;> cases t <;> first | exact .same _ | exact absurd (hparts h).1 (by decide)
    | zero t => cases s <;> exact absurd (hparts h).1 (by decide)
    | finite t n f hn => cases s <;> cases t <;> exact absurd (hparts h).1 (by decide)
  | zero s =>
    cases v with
    | notANumber => cases hv
    | infinity t => cases t <;> exact absurd (hparts h).1 (by decide)
    | zero t => exact .zeros s t
    | finite t n f hn => cases t <;> exact absurd (hparts h).1 (by decide)
  | finite s m e hm =>
    cases v with
    | notANumber => cases hv
    | infinity t => cases s <;> cases t <;> exact absurd (hparts h).1 (by decide)
    | zero t => cases s <;> exact absurd (hparts h).1 (by decide)
    | finite t n f hn =>
      have hside : s = t := by
        cases s <;> cases t <;> first | rfl | exact absurd (hparts h).1 (by decide)
      obtain rfl := hside
      have hsame : e = f ∧ m = n := by
        cases s with
        | negative =>
          obtain ⟨-, hexp, hmantissa⟩ := hparts h
          omega
        | positive =>
          obtain ⟨-, hexp, hmantissa⟩ := hparts h
          omega
      obtain ⟨rfl, rfl⟩ := hsame
      exact .same _

theorem Agree.height_eq (h : Agree x y) : height (unpack x) = height (unpack y) := by
  unfold Agree at h
  generalize unpack x = u, unpack y = v at h
  cases h with
  | same u => rfl
  | zeros s t => rfl

/-- **Two doubles that are neither less nor greater** are the same, or both zero. -/
theorem agree_of_le (hxy : x ≤ y) (hyx : y ≤ x) : Agree x y := by
  obtain ⟨hx, hy, hle⟩ := le_iff.1 hxy
  exact agree_of_height hx hy (le_antisymm hle (le_iff.1 hyx).2.2)

end Order

/-! ### Natural numbers -/

theorem unpack_natCast {n : ℕ} (h : 0 < n) (hlt : n < 2 ^ 53) : ∃ hd : IsDouble (normalMantissa n)
    ((n.log2 : ℤ) - 52), unpack n.toFloat =
      .finite .positive (normalMantissa n) ((n.log2 : ℤ) - 52) hd.pos := by
  have hlog : n.log2 ≤ 52 := log2_le h hlt
  have hd := isDouble_normalMantissa h hlog (le_refl 0) (by norm_num)
  have hnear := hd.near
  rw [normalMantissa_value hlog 0, zpow_zero, ← zpow_zero (10 : ℚ), add_zero] at hnear
  have hdecimal : n.toFloat = ofDecimal n 0 := rfl
  rw [add_zero] at hd
  rw [hdecimal]
  exact ⟨hd, unpack_ofDecimal hd h hnear (Nat.zero_le _)⟩

/-- **Natural numbers below `2 ^ 53` are doubles.** -/
theorem rational?_toFloat {n : ℕ} (h : n < 2 ^ 53) : rational? n.toFloat = some (n : ℚ) := by
  rcases Nat.eq_zero_or_pos n with rfl | hpos
  · have hzero : unpack (Nat.toFloat 0) = .zero .positive := unpack_ofDecimal_zero
    unfold rational?
    rw [hzero]
    rfl
  · obtain ⟨hd, hform⟩ := unpack_natCast hpos h
    have hvalue := normalMantissa_value (log2_le hpos h) 0
    rw [add_zero, zpow_zero, mul_one] at hvalue
    unfold rational?
    rw [hform]
    exact congrArg some hvalue

/-! ### Products -/

/-- A form with an exponent above that of all doubles is packed as infinite. -/
theorem unpack_repack_overflow (s : Sign) {m : ℕ} {e : ℤ} (h : 0 < m) (he : 971 < e) :
    unpack (repack (.finite s m e h)) = .infinity s := by
  have hfits : 2 ^ 11 ≤ (e + 1075).toNat + 1 := by omega
  rw [unpack_repack, pack_finite, if_pos hfits, ← unpack_repack_infinity s, unpack_repack]
  rfl

/-- No finite form is packed as NaN. -/
theorem isNaN_repack (s : Sign) {m : ℕ} {e : ℤ} (h : 0 < m) :
    (unpack (repack (.finite s m e h))).isNaN = false := by
  rcases le_or_gt e 971 with he | he
  · have hfinite : (repack (.finite s m e h)).isFinite = true := isFinite_repack s h he
    exact isNaN_of_isFinite hfinite
  · rw [unpack_repack_overflow s h he]
    rfl

/-- **A product of finite doubles is a number, or infinite.** -/
theorem isNaN_mul {x y : Float} {p q : ℚ} (hx : rational? x = some p) (hy : rational? y = some q) :
    (x * y).isNaN = false := by
  unfold rational? at hx hy
  show (unpack (repack (mul .binary64 (unpack x) (unpack y)))).isNaN = false
  generalize unpack x = u at hx
  generalize unpack y = v at hy
  have hzero : ∀ s, (unpack (repack (.zero s))).isNaN = false := by
    intro s
    rw [unpack_repack_zero]
    rfl
  cases u with
  | notANumber => cases hx
  | infinity s => cases hx
  | zero s =>
    cases v with
    | notANumber => cases hy
    | infinity t => cases hy
    | zero t | finite t n f h => exact hzero _
  | finite s m e h =>
    cases v with
    | notANumber => cases hy
    | infinity t => cases hy
    | zero t => exact hzero _
    | finite t n f h' =>
      show (unpack (repack (roundWithAccuracy .binary64 (s * t) (m * n) (e + f) .exact))).isNaN = false
      unfold roundWithAccuracy
      simp only
      split
      · exact hzero _
      · exact isNaN_repack _ _

/-- A product with zero is zero. -/
theorem rational?_mul_eq_zero {x y : Float} {p q : ℚ} (hx : rational? x = some p)
    (hy : rational? y = some q) (h : p = 0 ∨ q = 0) : rational? (x * y) = some 0 := by
  have hnonzero : ∀ {s : Sign} {m : ℕ} {e : ℤ}, 0 < m →
      (if isNegative s then -((m : ℚ) * 2 ^ e) else m * 2 ^ e) ≠ 0 := by
    intro s m e hm
    have hpos : (0 : ℚ) < m * 2 ^ e := mul_pos (Nat.cast_pos.2 hm) (two_zpow_pos e)
    cases s with
    | negative => exact (neg_neg_of_pos hpos).ne
    | positive => exact hpos.ne'
  have hzero : ∀ s, rational? (repack (.zero s)) = some 0 := by
    intro s
    unfold rational?
    rw [unpack_repack_zero]
  unfold rational? at hx hy
  show rational? (repack (mul .binary64 (unpack x) (unpack y))) = some 0
  generalize unpack x = u at hx
  generalize unpack y = v at hy
  cases u with
  | notANumber => cases hx
  | infinity s => cases hx
  | zero s =>
    cases v with
    | notANumber => cases hy
    | infinity t => cases hy
    | zero t | finite t n f h => exact hzero _
  | finite s m e hm =>
    cases v with
    | notANumber => cases hy
    | infinity t => cases hy
    | zero t => exact hzero _
    | finite t n f hn =>
      obtain rfl := Option.some.inj hx
      obtain rfl := Option.some.inj hy
      rcases h with h | h
      · exact absurd h (hnonzero hm)
      · exact absurd h (hnonzero hn)

/-- **A power of two times a natural number is exact**, if it is a natural number. -/
theorem rational?_mul_toFloat {x : Float} {e : ℤ} {h : 0 < 2 ^ 52} {n k : ℕ}
    (hx : unpack x = .finite .positive (2 ^ 52) e h) (hn : n < 2 ^ 53) (hk : k < 2 ^ 53)
    (hvalue : (2 : ℚ) ^ (52 + e) * n = k) : rational? (x * n.toFloat) = some (k : ℚ) := by
  have hpower := two_zpow_pos (52 + e)
  rcases Nat.eq_zero_or_pos n with rfl | hnpos
  · have hfinite : rational? x = some (((2 ^ 52 : ℕ) : ℚ) * 2 ^ e) := by
      unfold rational?
      rw [hx]
      rfl
    rw [← hvalue, Nat.cast_zero, mul_zero]
    exact rational?_mul_eq_zero hfinite (rational?_toFloat hn) (.inr Nat.cast_zero)
  have hkpos : 0 < k := by
    have hproduct : (0 : ℚ) < k := hvalue ▸ mul_pos hpower (Nat.cast_pos.2 hnpos)
    exact Nat.cast_pos.1 hproduct
  obtain ⟨hd, hform⟩ := unpack_natCast hnpos hn
  obtain ⟨hd', hform'⟩ := unpack_natCast hkpos hk
  have hnumber : ∀ {n : ℕ}, 0 < n → n < 2 ^ 53 →
      (normalMantissa n : ℚ) * 2 ^ ((n.log2 : ℤ) - 52) = n := by
    intro n hn hn'
    have hvalue := normalMantissa_value (log2_le hn hn') 0
    rwa [add_zero, zpow_zero, mul_one] at hvalue
  have hproduct : ((2 ^ 52 : ℕ) : ℚ) * 2 ^ e *
      (normalMantissa n * 2 ^ ((n.log2 : ℤ) - 52)) =
        normalMantissa k * 2 ^ ((k.log2 : ℤ) - 52) := by
    rw [hnumber hnpos hn, hnumber hkpos hk, ← hvalue, two_zpow_add]
    norm_num
  have hmul : x * n.toFloat = k.toFloat := by
    apply eq_of_unpack
    show unpack (repack (mul .binary64 (unpack x) (unpack n.toFloat))) = _
    rw [hx, hform, mul_near hd' h hd.pos ?_ (hproduct ▸ hd'.near), unpack_repack_finite _ _ hd',
      hform']
    exact Nat.le_mul_of_pos_right _ hd.pos
  rw [hmul, rational?_toFloat hk]

/-! ### Integers around a double -/

/-- An integer is what has the same integer below and above. -/
theorem isWhole_iff (m : ℕ) (e : ℤ) :
    isWhole m e = true ↔ ⌊(m : ℚ) * 2 ^ e⌋₊ = ⌈(m : ℚ) * 2 ^ e⌉₊ := by
  have hpos : 0 < twoPow (-e).toNat := Nat.two_pow_pos _
  have hne : ((twoPow (-e).toNat : ℕ) : ℚ) ≠ 0 := Nat.cast_ne_zero.2 hpos.ne'
  unfold isWhole
  rw [value_eq_div, decide_eq_true_eq]
  generalize m * twoPow e.toNat = a
  generalize twoPow (-e).toNat = b at hpos hne
  constructor
  · intro hmod
    obtain ⟨k, rfl⟩ := Nat.dvd_of_mod_eq_zero hmod
    rw [Nat.cast_mul, mul_div_cancel_left₀ _ hne, Nat.floor_natCast, Nat.ceil_natCast]
  · intro hsame
    have hnonneg : (0 : ℚ) ≤ a / b := by positivity
    have hfloor : (a : ℚ) / b = (⌊(a : ℚ) / b⌋₊ : ℕ) := by
      apply le_antisymm
      · rw [hsame]
        exact Nat.le_ceil _
      · exact Nat.floor_le hnonneg
    rw [div_eq_iff hne] at hfloor
    have hproduct : a = ⌊(a : ℚ) / b⌋₊ * b := by exact_mod_cast hfloor
    rw [hproduct]
    exact Nat.mul_mod_left _ _

theorem wholePart_eq_natFloor (m : ℕ) (e : ℤ) : wholePart m e = ⌊(m : ℚ) * 2 ^ e⌋₊ := by
  have hnonneg : (0 : ℚ) ≤ m * 2 ^ e := mul_nonneg (Nat.cast_nonneg m) (two_zpow_pos e).le
  have hfloor := wholePart_eq_floor m e
  rw [← Int.natCast_floor_eq_floor hnonneg] at hfloor
  exact Int.ofNat_inj.1 hfloor

end Framewise.Number
