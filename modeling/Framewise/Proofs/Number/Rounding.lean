import Mathlib.Algebra.Order.Field.Power
import Mathlib.Tactic.FieldSimp
import Mathlib.Tactic.Linarith
import Mathlib.Tactic.Positivity
import Mathlib.Tactic.Ring
import Framewise.Number.Shortest
import Framewise.Proofs.Number.Bits

/-!
# Rounding to the nearest double

A double is the rounding of every number in its interval, `Near`. The operations on doubles round
a truncated significand, of which they know on which side of the half the rest lies; `Truncates`
says that such a significand stands for a number.

* `Truncates.rounded`: it rounds down, up, or at the half to the even neighbour.
* `Truncates.roundedMantissa_eq`: it rounds to the natural number within half a unit, the even
  one of two.
* `roundWithAccuracy_eq`: a number in the interval of a double is rounded to this double.
-/

namespace Framewise.Number

open Float.Model (UnpackedFloat Format)
open Float.Model.UnpackedFloat

/-! ### Intervals -/

/-- The numbers that round to the double `m * 2 ^ e`. The ends of the interval belong to it
exactly when `m` is even. -/
structure Near (m : ℕ) (e : ℤ) (q : ℚ) : Prop where
  low : (lowEnd m e : ℚ) * 2 ^ (e - 2) ≤ q
  high : q ≤ (highEnd m : ℚ) * 2 ^ (e - 2)
  open_low : m % 2 = 1 → (lowEnd m e : ℚ) * 2 ^ (e - 2) ≠ q
  open_high : m % 2 = 1 → q ≠ (highEnd m : ℚ) * 2 ^ (e - 2)

theorem lowEnd_pos {m : ℕ} (h : 0 < m) (e : ℤ) : 0 < lowEnd m e := by
  unfold lowEnd
  split
  · omega
  · omega

theorem lowEnd_lt {m : ℕ} (h : 0 < m) (e : ℤ) : lowEnd m e < 4 * m := by
  unfold lowEnd
  split
  · omega
  · omega

theorem lt_highEnd (m : ℕ) : 4 * m < highEnd m := by
  unfold highEnd
  omega

/-! ### Truncated significands -/

/-- The number `t` is the mantissa and a rest below one; the two bits tell the rest from zero and
from a half. -/
def Truncates (em : ExtendedMantissa) (t : ℚ) : Prop :=
  ∃ rest : ℚ, t = em.mantissa + rest ∧ 0 ≤ rest ∧ rest < 1 ∧
    (em.roundBit = true ↔ 1 / 2 ≤ rest) ∧ (em.stickyBit = true ↔ rest ≠ 0 ∧ rest ≠ 1 / 2)

theorem Truncates.bounds {em : ExtendedMantissa} {t : ℚ} (h : Truncates em t) :
    (em.mantissa : ℚ) ≤ t ∧ t < em.mantissa + 1 := by
  obtain ⟨rest, rfl, hnonneg, hlt, -, -⟩ := h
  constructor
  · linarith
  · linarith

/-- The two bits tell together whether there is a rest. -/
theorem bits_iff {r s : Bool} {rest : ℚ} (hround : r = true ↔ 1 / 2 ≤ rest)
    (hsticky : s = true ↔ rest ≠ 0 ∧ rest ≠ 1 / 2) : (r || s) = true ↔ rest ≠ 0 := by
  rw [Bool.or_eq_true, hround, hsticky]
  constructor
  · rintro (h | h)
    · intro h0
      rw [h0] at h
      norm_num at h
    · exact h.1
  · intro h
    by_cases hhalf : rest = 1 / 2
    · exact .inl hhalf.ge
    · exact .inr ⟨h, hhalf⟩

/-- Half a truncated number: the last bit of the mantissa goes into the rest. -/
theorem Truncates.shiftRightOne {em : ExtendedMantissa} {t : ℚ} (h : Truncates em t) :
    Truncates em.shiftRightOne (t / 2) := by
  obtain ⟨m, r, s⟩ := em
  obtain ⟨rest, rfl, hnonneg, hlt, hround, hsticky⟩ := h
  have hor := bits_iff hround hsticky
  have hsplit : (m : ℚ) = 2 * (m / 2 : ℕ) + (m % 2 : ℕ) := by
    exact_mod_cast (Nat.div_add_mod m 2).symm
  simp only at hor ⊢
  rcases Nat.mod_two_eq_zero_or_one m with hm | hm
  · refine ⟨rest / 2, ?_, by linarith, by linarith, ?_, ?_⟩
    · show ((m : ℚ) + rest) / 2 = (m / 2 : ℕ) + rest / 2
      rw [hsplit, hm]
      push_cast
      ring
    · simp only [ExtendedMantissa.shiftRightOne, hm]
      constructor
      · intro h
        exact absurd h (by decide)
      · intro h
        linarith
    · show (r || s) = true ↔ _
      rw [hor]
      constructor
      · intro h
        exact ⟨by simpa using h, by linarith⟩
      · intro h
        simpa using h.1
  · refine ⟨1 / 2 + rest / 2, ?_, by linarith, by linarith, ?_, ?_⟩
    · show ((m : ℚ) + rest) / 2 = (m / 2 : ℕ) + (1 / 2 + rest / 2)
      rw [hsplit, hm]
      push_cast
      ring
    · simp only [ExtendedMantissa.shiftRightOne, hm]
      constructor
      · intro _
        linarith
      · intro _
        rfl
    · show (r || s) = true ↔ _
      rw [hor]
      constructor
      · intro h
        refine ⟨by linarith, ?_⟩
        intro heq
        exact h (by linarith)
      · rintro ⟨-, h⟩ h0
        exact h (by rw [h0]; ring)

theorem Truncates.shiftRight {em : ExtendedMantissa} {t : ℚ} (h : Truncates em t) (n : ℕ) :
    Truncates (em >>> n) (t / 2 ^ n) := by
  show Truncates (n.repeat ExtendedMantissa.shiftRightOne em) _
  induction n with
  | zero =>
    rw [pow_zero, div_one]
    exact h
  | succ n ih =>
    rw [pow_succ, ← div_div]
    exact ih.shiftRightOne

/-- What a mantissa is rounded to, by the two bits. -/
theorem roundedMantissa_eq_add (em : ExtendedMantissa) : em.roundedMantissa = em.mantissa +
    if em.roundBit then if em.stickyBit then 1 else em.mantissa % 2 else 0 := by
  obtain ⟨m, r, s⟩ := em
  cases r with
  | false | true => cases s <;> rfl

theorem le_roundedMantissa (em : ExtendedMantissa) : em.mantissa ≤ em.roundedMantissa := by
  rw [roundedMantissa_eq_add]
  exact Nat.le_add_right _ _

theorem roundedMantissa_le_succ (em : ExtendedMantissa) : em.roundedMantissa ≤ em.mantissa + 1 := by
  rw [roundedMantissa_eq_add]
  split
  · split <;> omega
  · omega

/-- **A truncated number is rounded** down below the half, up above it, and at the half to the even
neighbour. -/
theorem Truncates.rounded {em : ExtendedMantissa} {t : ℚ} (h : Truncates em t) :
    t < em.mantissa + 1 / 2 ∧ em.roundedMantissa = em.mantissa ∨
      t = em.mantissa + 1 / 2 ∧ em.roundedMantissa = em.mantissa + em.mantissa % 2 ∨
      em.mantissa + 1 / 2 < t ∧ em.roundedMantissa = em.mantissa + 1 := by
  obtain ⟨rest, rfl, -, -, hround, hsticky⟩ := h
  rw [roundedMantissa_eq_add]
  rcases lt_trichotomy rest (1 / 2) with hlt | rfl | hgt
  · have hbit : ¬ em.roundBit = true := by rwa [hround, not_le]
    exact .inl ⟨by linarith, by rw [if_neg hbit, Nat.add_zero]⟩
  · have hbit : em.roundBit = true := hround.2 le_rfl
    have hrest : ¬ em.stickyBit = true := by
      rw [hsticky]
      exact fun h => h.2 rfl
    exact .inr (.inl ⟨rfl, by rw [if_pos hbit, if_neg hrest]⟩)
  · have hbit : em.roundBit = true := hround.2 hgt.le
    have hrest : em.stickyBit = true := hsticky.2 ⟨by linarith, hgt.ne'⟩
    exact .inr (.inr ⟨by linarith, by rw [if_pos hbit, if_pos hrest]⟩)

/-- **A truncated number is rounded to the nearest natural number**, and to the even one of two
that are equally near. -/
theorem Truncates.roundedMantissa_eq {em : ExtendedMantissa} {t : ℚ} (h : Truncates em t) {n : ℕ}
    (hlow : (n : ℚ) - 1 / 2 ≤ t) (hhigh : t ≤ n + 1 / 2)
    (hodd : n % 2 = 1 → (n : ℚ) - 1 / 2 ≠ t ∧ t ≠ n + 1 / 2) : em.roundedMantissa = n := by
  obtain ⟨hge, hlt⟩ := h.bounds
  rcases h.rounded with ⟨hbelow, heq⟩ | ⟨htie, heq⟩ | ⟨habove, heq⟩
  · have hle : (em.mantissa : ℚ) < n + 1 := by linarith
    have hge' : (n : ℚ) < em.mantissa + 1 := by linarith
    norm_cast at hle hge'
    omega
  · -- Halfway between two neighbours `n` is the one that is even.
    have hle : (em.mantissa : ℚ) < n + 1 := by linarith
    have hge' : (n : ℚ) < em.mantissa + 2 := by linarith
    norm_cast at hle hge'
    rcases Nat.lt_or_ge em.mantissa n with hmn | hmn
    · have hn : n = em.mantissa + 1 := by omega
      have heven : n % 2 ≠ 1 := by
        intro h
        exact (hodd h).1 (by rw [hn, htie]; push_cast; ring)
      omega
    · have hn : n = em.mantissa := by omega
      have heven : n % 2 ≠ 1 := by
        intro h
        exact (hodd h).2 (by rw [hn, htie])
      omega
  · have hle : (em.mantissa : ℚ) < n := by linarith
    have hge' : (n : ℚ) < em.mantissa + 2 := by linarith
    norm_cast at hle hge'
    omega

/-! ### Rounding -/

theorem two_zpow_pos (e : ℤ) : (0 : ℚ) < 2 ^ e := by positivity

theorem two_zpow_lt_iff {a b : ℤ} : (2 : ℚ) ^ a < 2 ^ b ↔ a < b :=
  zpow_lt_zpow_iff_right₀ (by norm_num)

theorem two_zpow_add (a b : ℤ) : (2 : ℚ) ^ (a + b) = 2 ^ a * 2 ^ b :=
  zpow_add₀ (by norm_num) a b

/-- A number has its leading bit where its truncation has it. -/
theorem log2_bounds {M : ℕ} {E : ℤ} {q : ℚ} (hM : 0 < M) (hlow : (M : ℚ) * 2 ^ E ≤ q)
    (hhigh : q < (M + 1) * 2 ^ E) :
    (2 : ℚ) ^ ((M.log2 : ℤ) + E) ≤ q ∧ q < 2 ^ ((M.log2 : ℤ) + E + 1) := by
  have hpos := two_zpow_pos E
  have hself : ((2 ^ M.log2 : ℕ) : ℚ) ≤ M := by
    exact_mod_cast Nat.log2_self_le (by omega)
  have hnext : ((M + 1 : ℕ) : ℚ) ≤ ((2 ^ (M.log2 + 1) : ℕ) : ℚ) := by
    exact_mod_cast Nat.lt_log2_self
  constructor
  · calc (2 : ℚ) ^ ((M.log2 : ℤ) + E) = ((2 ^ M.log2 : ℕ) : ℚ) * 2 ^ E := by
          rw [two_zpow_add, zpow_natCast]
          push_cast
          rfl
      _ ≤ M * 2 ^ E := by gcongr
      _ ≤ q := hlow
  · calc q < (M + 1) * 2 ^ E := hhigh
      _ ≤ ((2 ^ (M.log2 + 1) : ℕ) : ℚ) * 2 ^ E := by
          gcongr
          exact_mod_cast hnext
      _ = 2 ^ ((M.log2 : ℤ) + E + 1) := by
          rw [add_right_comm, two_zpow_add, ← Nat.cast_succ, zpow_natCast]
          push_cast
          rfl

/-- The exponent that a significand is shifted to. -/
def target (M : ℕ) (E : ℤ) : ℤ :=
  max ((M.log2 : ℤ) + 1 + E - 53) minExponent

theorem shiftToTargetExponent_eq {M : ℕ} {E : ℤ} (acc : Accuracy) (h : E ≤ target M E) :
    shiftToTargetExponent .binary64 M E acc =
      (ExtendedMantissa.ofMantissaAndAccuracy M acc >>> (target M E - E).toNat, target M E) := by
  have htarget : Format.targetExponent .binary64 (Float.Model.totalExponent M E) = target M E :=
    rfl
  unfold shiftToTargetExponent shiftToExponent
  simp only [htarget]
  congr 1
  omega

/-- Shifting keeps the number that is truncated. -/
theorem Truncates.target {M : ℕ} {E : ℤ} {acc : Accuracy} {q : ℚ}
    (h : Truncates (.ofMantissaAndAccuracy M acc) (q / 2 ^ E)) (hE : E ≤ target M E) :
    Truncates (shiftToTargetExponent .binary64 M E acc).1 (q / 2 ^ Number.target M E) := by
  have hshift := h.shiftRight (Number.target M E - E).toNat
  have hpow : (2 : ℚ) ^ E * 2 ^ (Number.target M E - E).toNat = 2 ^ Number.target M E := by
    rw [← zpow_natCast, ← two_zpow_add]
    congr 1
    omega
  rw [div_div, hpow] at hshift
  rw [shiftToTargetExponent_eq acc hE]
  exact hshift

theorem truncates_exact (n : ℕ) : Truncates (.ofMantissaAndAccuracy n .exact) n := by
  refine ⟨0, by simp [ExtendedMantissa.ofMantissaAndAccuracy], le_refl _, by norm_num, ?_, ?_⟩
  · simp [ExtendedMantissa.ofMantissaAndAccuracy]
  · simp [ExtendedMantissa.ofMantissaAndAccuracy]

theorem IsDouble.log2 {m : ℕ} {e : ℤ} (h : IsDouble m e) : target m e = e := by
  have hleast : -1074 ≤ e := h.least
  have hlt := h.lt
  have hne : m ≠ 0 := h.pos.ne'
  show max ((m.log2 : ℤ) + 1 + e - 53) (-1074) = e
  rcases Nat.lt_or_ge m (2 ^ 52) with hm | hm
  · have hlog : m.log2 < 52 := (Nat.log2_lt hne).2 hm
    have he : e = -1074 := h.normal hm
    omega
  · have hlog : m.log2 = 52 := log2_eq hm hlt
    omega

theorem mantissa_shiftRight (em : ExtendedMantissa) (k : ℕ) :
    (em >>> k).mantissa = em.mantissa / 2 ^ k := by
  induction k with
  | zero => exact (Nat.div_one _).symm
  | succ k ih =>
    show (em >>> k).mantissa / 2 = _
    rw [ih, Nat.div_div_eq_div_mul, pow_succ]

/-- What rounding does after the first shift: it drops what the significand has more than 53 bits. -/
theorem roundWithAccuracy_eq_dite (s : Sign) {M r : ℕ} {E t : ℤ} {acc : Accuracy}
    (ht : (shiftToTargetExponent .binary64 M E acc).2 = t)
    (hr : (shiftToTargetExponent .binary64 M E acc).1.roundedMantissa = r) {k : ℕ}
    (hk : (target r t - t).toNat = k) :
    roundWithAccuracy .binary64 s M E acc =
      if h : r / 2 ^ k = 0 then .zero s
      else .finite s (r / 2 ^ k) (t + k) (Nat.pos_of_ne_zero h) := by
  have hmantissa : (shiftToTargetExponent .binary64 r t .exact).1.mantissa = r / 2 ^ k := by
    rw [← hk]
    exact mantissa_shiftRight _ _
  have hexponent : (shiftToTargetExponent .binary64 r t .exact).2 = t + k := by
    rw [← hk]
    rfl
  unfold roundWithAccuracy
  simp only [ht, hr, hmantissa, hexponent]

/-- What rounding gives if the significand is that of a double then, or has one bit too many. -/
theorem roundWithAccuracy_of_first (s : Sign) {m M n : ℕ} {E e : ℤ} {acc : Accuracy} (h : 0 < m)
    (hd : IsDouble m e)
    (hfirst : (shiftToTargetExponent .binary64 M E acc).1.roundedMantissa = n)
    (hsecond : n = m ∧ (shiftToTargetExponent .binary64 M E acc).2 = e ∨
      n = 2 ^ 53 ∧ m = 2 ^ 52 ∧ (shiftToTargetExponent .binary64 M E acc).2 = e - 1) :
    roundWithAccuracy .binary64 s M E acc = .finite s m e h := by
  have hleast : -1074 ≤ e := hd.least
  rcases hsecond with ⟨rfl, hexp⟩ | ⟨rfl, rfl, hexp⟩
  · have hkept : (target n e - e).toNat = 0 := by
      rw [hd.log2, Int.sub_self]
      rfl
    rw [roundWithAccuracy_eq_dite s hexp hfirst hkept]
    simp only [pow_zero, Nat.div_one, Nat.cast_zero, add_zero]
    rw [dif_neg h.ne']
  · have hdropped : (target (2 ^ 53) (e - 1) - (e - 1)).toNat = 1 := by
      show (max (((2 ^ 53 : ℕ).log2 : ℤ) + 1 + (e - 1) - 53) (-1074) - (e - 1)).toNat = 1
      rw [Nat.log2_two_pow]
      omega
    rw [roundWithAccuracy_eq_dite s hexp hfirst hdropped, dif_neg (by decide)]
    simp only [Nat.cast_one, sub_add_cancel]
    rfl

/-! ### Numbers in an interval -/

theorem Near.scaled {m : ℕ} {e : ℤ} {q : ℚ} (h : Near m e q) :
    (lowEnd m e : ℚ) / 4 ≤ q / 2 ^ e ∧ q / 2 ^ e ≤ (highEnd m : ℚ) / 4 ∧
    (m % 2 = 1 → (lowEnd m e : ℚ) / 4 ≠ q / 2 ^ e ∧ q / 2 ^ e ≠ (highEnd m : ℚ) / 4) := by
  have hpos := two_zpow_pos e
  have hquarter : (2 : ℚ) ^ (e - 2) = 2 ^ e / 4 := by
    rw [zpow_sub₀ (by norm_num)]
    norm_num
  obtain ⟨hlow, hhigh, hopenLow, hopenHigh⟩ := h
  rw [hquarter] at hlow hhigh hopenLow hopenHigh
  refine ⟨?_, ?_, fun hm => ⟨fun heq => hopenLow hm ?_, fun heq => hopenHigh hm ?_⟩⟩
  · rw [le_div_iff₀ hpos]
    linarith
  · rw [div_le_iff₀ hpos]
    linarith
  · rw [eq_div_iff hpos.ne'] at heq
    linarith
  · rw [div_eq_iff hpos.ne'] at heq
    linarith

theorem highEnd_div (m : ℕ) : (highEnd m : ℚ) / 4 = m + 1 / 2 := by
  rw [highEnd]
  push_cast
  ring

theorem lowEnd_div {m : ℕ} {e : ℤ} (hm : 0 < m) (h : ¬ (m = 2 ^ 52 ∧ minExponent < e)) :
    (lowEnd m e : ℚ) / 4 = m - 1 / 2 := by
  have hend : lowEnd m e = 4 * m - 2 := if_neg h
  rw [hend, Nat.cast_sub (by omega)]
  push_cast
  ring

theorem lowEnd_div_boundary {e : ℤ} (he : minExponent < e) :
    (lowEnd (2 ^ 52) e : ℚ) / 4 = 2 ^ 52 - 1 / 4 := by
  have hend : lowEnd (2 ^ 52) e = 4 * 2 ^ 52 - 1 := if_pos ⟨rfl, he⟩
  rw [hend]
  norm_num

/-- A number in the interval of a double is within half a unit of it. -/
theorem Near.half_unit {m : ℕ} {e : ℤ} {q : ℚ} (hm : 0 < m) (h : Near m e q) :
    (m : ℚ) - 1 / 2 ≤ q / 2 ^ e ∧ q / 2 ^ e ≤ m + 1 / 2 ∧
    (m % 2 = 1 → (m : ℚ) - 1 / 2 ≠ q / 2 ^ e ∧ q / 2 ^ e ≠ m + 1 / 2) := by
  obtain ⟨hlow, hhigh, hopen⟩ := h.scaled
  rw [highEnd_div] at hhigh hopen
  by_cases hboundary : m = 2 ^ 52 ∧ minExponent < e
  · obtain ⟨rfl, he⟩ := hboundary
    rw [lowEnd_div_boundary he] at hlow
    refine ⟨?_, hhigh, fun hodd => absurd hodd (by norm_num)⟩
    push_cast
    linarith
  · rw [lowEnd_div hm hboundary] at hlow hopen
    exact ⟨hlow, hhigh, hopen⟩

/-- The leading bit of a double bounds the numbers in its interval. -/
theorem Near.lt_two_zpow_log2 {m : ℕ} {e : ℤ} {q : ℚ} (hm : 0 < m) (h : Near m e q) :
    q < 2 ^ ((m.log2 : ℤ) + 1 + e) := by
  obtain ⟨-, hhigh, -⟩ := h.half_unit hm
  have hpos := two_zpow_pos e
  have hlog : ((m + 1 : ℕ) : ℚ) ≤ ((2 ^ (m.log2 + 1) : ℕ) : ℚ) := Nat.cast_le.2 Nat.lt_log2_self
  have hcast : ((2 ^ (m.log2 + 1) : ℕ) : ℚ) = 2 ^ ((m.log2 : ℤ) + 1) := by
    rw [Nat.cast_pow, ← zpow_natCast]
    rfl
  rw [hcast] at hlog
  push_cast at hlog
  rw [div_le_iff₀ hpos] at hhigh
  calc q ≤ (m + 1 / 2) * 2 ^ e := hhigh
    _ < (m + 1) * 2 ^ e := mul_lt_mul_of_pos_right (by linarith) hpos
    _ ≤ 2 ^ ((m.log2 : ℤ) + 1) * 2 ^ e := mul_le_mul_of_nonneg_right hlog hpos.le
    _ = 2 ^ ((m.log2 : ℤ) + 1 + e) := (two_zpow_add _ _).symm

theorem Near.lt_two_zpow {m : ℕ} {e : ℤ} {q : ℚ} (hd : IsDouble m e) (h : Near m e q) :
    q < 2 ^ (53 + e) := by
  have hlog := log2_le hd.pos hd.lt
  exact (h.lt_two_zpow_log2 hd.pos).trans_le (zpow_le_zpow_right₀ one_le_two (by omega))

/-- Above the least exponent only the numbers next to a power of two are below it. -/
theorem Near.two_zpow_le {m : ℕ} {e : ℤ} {q : ℚ} (hd : IsDouble m e) (h : Near m e q)
    (he : minExponent < e) (hm : m ≠ 2 ^ 52) : (2 : ℚ) ^ (52 + e) ≤ q := by
  obtain ⟨hlow, -, -⟩ := h.half_unit hd.pos
  rw [le_div_iff₀ (two_zpow_pos e)] at hlow
  have hnormal : 2 ^ 52 ≤ m := by
    by_contra hlt
    exact he.ne' (hd.normal (not_le.1 hlt))
  have hm' : ((2 ^ 52 + 1 : ℕ) : ℚ) ≤ m := by exact_mod_cast (by omega : 2 ^ 52 + 1 ≤ m)
  have hcast : ((2 ^ 52 + 1 : ℕ) : ℚ) = 2 ^ (52 : ℤ) + 1 := by norm_num
  rw [hcast] at hm'
  apply le_trans _ hlow
  rw [two_zpow_add]
  apply mul_le_mul_of_nonneg_right _ (two_zpow_pos e).le
  linarith

/-! ### Rounding a truncated number -/

section Rounding

variable {M : ℕ} {E : ℤ} {acc : Accuracy} {q : ℚ}

theorem mantissa_ofMantissaAndAccuracy (M : ℕ) (acc : Accuracy) :
    (ExtendedMantissa.ofMantissaAndAccuracy M acc).mantissa = M := by
  cases acc with
  | exact => rfl
  | inexact o => cases o <;> rfl

theorem le_target (hbits : 2 ^ 52 ≤ M ∨ E = minExponent) : E ≤ target M E := by
  rcases hbits with hM | rfl
  · have hlog : 52 ≤ M.log2 := (Nat.le_log2 (by omega)).2 hM
    exact le_max_of_le_left (by omega)
  · exact le_max_right _ _

variable (htr : Truncates (.ofMantissaAndAccuracy M acc) (q / 2 ^ E))

include htr

theorem truncation_bounds : (M : ℚ) * 2 ^ E ≤ q ∧ q < (M + 1) * 2 ^ E := by
  obtain ⟨hlow, hhigh⟩ := htr.bounds
  rw [mantissa_ofMantissaAndAccuracy, le_div_iff₀ (two_zpow_pos E)] at hlow
  rw [mantissa_ofMantissaAndAccuracy, div_lt_iff₀ (two_zpow_pos E)] at hhigh
  exact ⟨hlow, hhigh⟩

variable (hbits : 2 ^ 52 ≤ M ∨ E = minExponent)

include hbits

/-- A truncation that is short of bits is that of a number at the least exponent. -/
theorem short_truncation (hM : M < 2 ^ 52) : E = minExponent ∧ q < 2 ^ (52 + minExponent) := by
  obtain rfl := hbits.resolve_left (by omega)
  refine ⟨rfl, lt_of_lt_of_le (truncation_bounds htr).2 ?_⟩
  rw [two_zpow_add]
  apply mul_le_mul_of_nonneg_right _ (two_zpow_pos _).le
  have hle : ((M + 1 : ℕ) : ℚ) ≤ ((2 ^ 52 : ℕ) : ℚ) := by exact_mod_cast hM
  calc (M : ℚ) + 1 ≤ ((2 ^ 52 : ℕ) : ℚ) := by exact_mod_cast hle
    _ = 2 ^ (52 : ℤ) := by norm_num

/-- The leading bit of a number says at which exponent it is rounded. -/
theorem target_eq {e : ℤ} (hleast : minExponent ≤ e) (hhigh : q < 2 ^ (53 + e))
    (hlow : minExponent < e → (2 : ℚ) ^ (52 + e) ≤ q) : target M E = e := by
  have hleast' : -1074 ≤ e := hleast
  rcases Nat.lt_or_ge M (2 ^ 52) with hM | hM
  · obtain ⟨rfl, hsmall⟩ := short_truncation htr hbits hM
    have hlog : M.log2 ≤ 52 := by
      rcases Nat.eq_zero_or_pos M with rfl | hpos
      · simp
      · exact ((Nat.log2_lt hpos.ne').2 (by omega)).le
    have he : e = -1074 := by
      by_contra hne
      have hgt : minExponent < e := lt_of_le_of_ne hleast (Ne.symm hne)
      have hexps := two_zpow_lt_iff.1 (lt_of_le_of_lt (hlow hgt) hsmall)
      omega
    show max ((M.log2 : ℤ) + 1 + -1074 - 53) (-1074) = e
    omega
  · obtain ⟨hbelow, habove⟩ := truncation_bounds htr
    obtain ⟨hlead, hlead'⟩ := log2_bounds (by omega) hbelow habove
    have h1 := two_zpow_lt_iff.1 (lt_of_le_of_lt hlead hhigh)
    have h2 : -1074 < e → 52 + e < M.log2 + E + 1 :=
      fun he => two_zpow_lt_iff.1 (lt_of_le_of_lt (hlow he) hlead')
    show max ((M.log2 : ℤ) + 1 + E - 53) (-1074) = e
    omega

/-- At the exponent of a double, the numbers in its interval are rounded to its significand. -/
theorem round_normal (s : Sign) {m : ℕ} {e : ℤ} (h : 0 < m) (hd : IsDouble m e) (hq : Near m e q)
    (htarget : target M E = e) :
    roundWithAccuracy .binary64 s M E acc = .finite s m e h := by
  obtain ⟨hbelow, habove, hodd⟩ := hq.half_unit h
  have htrunc := htr.target (le_target hbits)
  have hexp : (shiftToTargetExponent .binary64 M E acc).2 = target M E := by
    rw [shiftToTargetExponent_eq acc (le_target hbits)]
  rw [htarget] at htrunc hexp
  have hfirst := htrunc.roundedMantissa_eq hbelow habove hodd
  exact roundWithAccuracy_of_first s h hd hfirst (.inl ⟨rfl, hexp⟩)

/-- Just below a power of two the units are half as long, and the significand overflows. -/
theorem round_boundary (s : Sign) {e : ℤ} (h : 0 < 2 ^ 52) (hd : IsDouble (2 ^ 52) e)
    (hq : Near (2 ^ 52) e q) (he : minExponent < e) (hhigh : q < 2 ^ (52 + e)) :
    roundWithAccuracy .binary64 s M E acc = .finite s (2 ^ 52) e h := by
  have hlow := hq.scaled.1
  rw [lowEnd_div_boundary he] at hlow
  have hlow' : (2 : ℚ) ^ (51 + e) ≤ q := by
    have hbelow := hlow
    rw [le_div_iff₀ (two_zpow_pos e)] at hbelow
    apply le_trans _ hbelow
    rw [two_zpow_add]
    apply mul_le_mul_of_nonneg_right _ (two_zpow_pos e).le
    norm_num
  have htarget : target M E = e - 1 := by
    apply target_eq htr hbits (by omega)
    · rwa [show 53 + (e - 1) = 52 + e by omega]
    · intro _
      rwa [show 52 + (e - 1) = 51 + e by omega]
  have htrunc := htr.target (le_target hbits)
  have hexp : (shiftToTargetExponent .binary64 M E acc).2 = target M E := by
    rw [shiftToTargetExponent_eq acc (le_target hbits)]
  have hdouble : q / 2 ^ (e - 1) = 2 * (q / 2 ^ e) := by
    have hne := (two_zpow_pos e).ne'
    rw [zpow_sub₀ (by norm_num)]
    field_simp
  have hlt : q / 2 ^ e < 2 ^ 52 := by
    rw [div_lt_iff₀ (two_zpow_pos e)]
    rw [two_zpow_add] at hhigh
    exact_mod_cast hhigh
  rw [htarget] at htrunc hexp
  rw [hdouble] at htrunc
  have hfirst := @Truncates.roundedMantissa_eq _ _ htrunc (2 ^ 53) (by push_cast; linarith)
    (by push_cast; linarith) (fun hodd => absurd hodd (by norm_num))
  exact roundWithAccuracy_of_first s h hd hfirst (.inr ⟨rfl, rfl, hexp⟩)

/-- **A number is rounded to the double in whose interval it lies**, when its truncation has as
many bits as a significand or ends at the least exponent. -/
theorem roundWithAccuracy_eq (s : Sign) {m : ℕ} {e : ℤ} (h : 0 < m) (hd : IsDouble m e)
    (hq : Near m e q) : roundWithAccuracy .binary64 s M E acc = .finite s m e h := by
  by_cases hboundary : m = 2 ^ 52 ∧ minExponent < e ∧ q < 2 ^ (52 + e)
  · obtain ⟨rfl, he, hhigh⟩ := hboundary
    exact round_boundary htr hbits s h hd hq he hhigh
  · apply round_normal htr hbits s h hd hq
    apply target_eq htr hbits hd.least (hq.lt_two_zpow hd)
    intro he
    by_cases hm : m = 2 ^ 52
    · by_contra hlt
      exact hboundary ⟨hm, he, not_le.1 hlt⟩
    · exact hq.two_zpow_le hd he hm

end Rounding

end Framewise.Number
