import Framewise.Proofs.Number.Rounding

/-!
# Decimals read as doubles

`ofDecimal` gives the double nearest to a decimal. Small significands and powers of ten are
doubles themselves, and one operation on them is enough; other decimals are rounded from exact
products and quotients. Both ways round once, so by `unpack_ofDecimal` a decimal in the interval
of a double is read as this double.
-/

namespace Framewise.Number

open Float.Model (UnpackedFloat Format)
open Float.Model.UnpackedFloat

/-! ### Quotients -/

theorem roundBit_ofFraction (q : ℕ) {r b : ℕ} (hb : 0 < b) :
    (ExtendedMantissa.ofMantissaAndAccuracy q (accuracyOfFraction r b)).roundBit = true ↔
      b ≤ 2 * r := by
  unfold accuracyOfFraction
  split
  · next h => simp [ExtendedMantissa.ofMantissaAndAccuracy, h, hb.ne']
  · cases hcmp : compare (2 * r) b with
    | lt =>
      rw [Nat.compare_eq_lt] at hcmp
      simp [ExtendedMantissa.ofMantissaAndAccuracy, hcmp]
    | eq =>
      rw [Nat.compare_eq_eq] at hcmp
      simp [ExtendedMantissa.ofMantissaAndAccuracy, hcmp]
    | gt =>
      rw [Nat.compare_eq_gt] at hcmp
      simp [ExtendedMantissa.ofMantissaAndAccuracy, hcmp.le]

theorem stickyBit_ofFraction (q r b : ℕ) :
    (ExtendedMantissa.ofMantissaAndAccuracy q (accuracyOfFraction r b)).stickyBit = true ↔
      r ≠ 0 ∧ 2 * r ≠ b := by
  unfold accuracyOfFraction
  split
  · next h => simp [ExtendedMantissa.ofMantissaAndAccuracy, h]
  · next h =>
    cases hcmp : compare (2 * r) b with
    | lt =>
      rw [Nat.compare_eq_lt] at hcmp
      simp [ExtendedMantissa.ofMantissaAndAccuracy, h, hcmp.ne]
    | eq =>
      rw [Nat.compare_eq_eq] at hcmp
      simp [ExtendedMantissa.ofMantissaAndAccuracy, hcmp]
    | gt =>
      rw [Nat.compare_eq_gt] at hcmp
      simp [ExtendedMantissa.ofMantissaAndAccuracy, h, hcmp.ne']

theorem half_le_fraction_iff (r : ℕ) {b : ℕ} (hb : 0 < b) :
    (1 / 2 : ℚ) ≤ (r : ℚ) / b ↔ b ≤ 2 * r := by
  have hb' : (0 : ℚ) < b := by exact_mod_cast hb
  rw [le_div_iff₀ hb', one_div, inv_mul_le_iff₀ (by norm_num)]
  exact_mod_cast Iff.rfl

theorem fraction_eq_half_iff (r : ℕ) {b : ℕ} (hb : 0 < b) :
    (r : ℚ) / b = 1 / 2 ↔ 2 * r = b := by
  have hb' : (b : ℚ) ≠ 0 := by exact_mod_cast hb.ne'
  rw [div_eq_div_iff hb' (by norm_num), one_mul, mul_comm]
  exact_mod_cast Iff.rfl

/-- The quotient of two natural numbers is truncated with the right accuracy. -/
theorem truncates_quotient (a : ℕ) {b : ℕ} (hb : 0 < b) :
    Truncates (.ofMantissaAndAccuracy (a / b) (accuracyOfFraction (a % b) b)) ((a : ℚ) / b) := by
  have hb' : (0 : ℚ) < b := by exact_mod_cast hb
  have hsplit : (a : ℚ) = b * (a / b : ℕ) + (a % b : ℕ) := by
    exact_mod_cast (Nat.div_add_mod a b).symm
  refine ⟨((a % b : ℕ) : ℚ) / b, ?_, by positivity, ?_, ?_, ?_⟩
  · rw [mantissa_ofMantissaAndAccuracy, div_eq_iff hb'.ne', add_mul, div_mul_cancel₀ _ hb'.ne',
      mul_comm]
    exact hsplit
  · rw [div_lt_one hb']
    exact_mod_cast Nat.mod_lt a hb
  · rw [roundBit_ofFraction _ hb, half_le_fraction_iff _ hb]
  · have hzero : ((a % b : ℕ) : ℚ) / b = 0 ↔ a % b = 0 := by
      rw [div_eq_zero_iff, or_iff_left hb'.ne', Nat.cast_eq_zero]
    rw [stickyBit_ofFraction, ne_eq, ne_eq, ne_eq, ne_eq, hzero, fraction_eq_half_iff _ hb]

/-- The quotient of two doubles is truncated with enough bits. -/
theorem divCore_spec {m₁ m₂ M : ℕ} {e₁ e₂ E : ℤ} {acc : Accuracy} (h₁ : 0 < m₁) (h₂ : 0 < m₂)
    (he : minExponent ≤ e₁ - e₂) (h : divCore .binary64 m₁ e₁ m₂ e₂ = (M, E, acc)) :
    Truncates (.ofMantissaAndAccuracy M acc) ((m₁ : ℚ) * 2 ^ e₁ / (m₂ * 2 ^ e₂) / 2 ^ E) ∧
    (2 ^ 52 ≤ M ∨ E = minExponent) := by
  have hmin : -1074 ≤ e₁ - e₂ := he
  have hE : E = min (e₁ - e₂)
      (max (((m₁.log2 : ℤ) + 1 + e₁) - ((m₂.log2 : ℤ) + 1 + e₂) - 53) (-1074)) :=
    (congrArg (fun p => p.2.1) h).symm
  have hle : E ≤ e₁ - e₂ := hE ▸ min_le_left _ _
  have hM : M = m₁ * 2 ^ (e₁ - e₂ - E).toNat / m₂ := by
    have hexp := congrArg (fun p => p.2.1) h
    have hfst := congrArg Prod.fst h
    simp only at hexp hfst
    rw [← hfst, ← hexp, ← Nat.shiftLeft_eq]
    rfl
  have hacc : acc = accuracyOfFraction (m₁ * 2 ^ (e₁ - e₂ - E).toNat % m₂) m₂ := by
    have hexp := congrArg (fun p => p.2.1) h
    have hsnd := congrArg (fun p => p.2.2) h
    simp only at hexp hsnd
    rw [← hsnd, ← hexp, ← Nat.shiftLeft_eq]
    rfl
  have hm₂ : (m₂ : ℚ) ≠ 0 := by exact_mod_cast h₂.ne'
  constructor
  · have hvalue : (m₁ : ℚ) * 2 ^ e₁ / (m₂ * 2 ^ e₂) / 2 ^ E =
        ((m₁ * 2 ^ (e₁ - e₂ - E).toNat : ℕ) : ℚ) / m₂ := by
      have hpow : (2 : ℚ) ^ e₁ = 2 ^ (e₁ - e₂ - E).toNat * (2 ^ e₂ * 2 ^ E) := by
        rw [← zpow_natCast, ← two_zpow_add, ← two_zpow_add]
        congr 1
        omega
      rw [hpow]
      have h2 := (two_zpow_pos e₂).ne'
      have hE' := (two_zpow_pos E).ne'
      push_cast
      field_simp
    rw [hvalue, hM, hacc]
    exact truncates_quotient _ h₂
  · by_cases hleast : E = -1074
    · exact .inr hleast
    · left
      have hself : 2 ^ m₁.log2 ≤ m₁ := Nat.log2_self_le h₁.ne'
      have hnext : m₂ < 2 ^ (m₂.log2 + 1) := Nat.lt_log2_self
      have hshift : 52 + (m₂.log2 + 1) ≤ m₁.log2 + (e₁ - e₂ - E).toNat := by omega
      rw [hM, Nat.le_div_iff_mul_le h₂]
      calc 2 ^ 52 * m₂ ≤ 2 ^ 52 * 2 ^ (m₂.log2 + 1) := Nat.mul_le_mul_left _ hnext.le
        _ = 2 ^ (52 + (m₂.log2 + 1)) := (pow_add 2 _ _).symm
        _ ≤ 2 ^ (m₁.log2 + (e₁ - e₂ - E).toNat) := Nat.pow_le_pow_right (by decide) hshift
        _ = 2 ^ m₁.log2 * 2 ^ (e₁ - e₂ - E).toNat := pow_add 2 _ _
        _ ≤ m₁ * 2 ^ (e₁ - e₂ - E).toNat := Nat.mul_le_mul_right _ hself

/-! ### One operation on doubles -/

section Operations

variable {m m₁ m₂ : ℕ} {e e₁ e₂ : ℤ} (hd : IsDouble m e)

include hd

/-- A product in the interval of a double is this double. -/
theorem mul_near (h₁ : 0 < m₁) (h₂ : 0 < m₂) (hbits : 2 ^ 52 ≤ m₁ * m₂)
    (hq : Near m e ((m₁ : ℚ) * 2 ^ e₁ * (m₂ * 2 ^ e₂))) :
    mul .binary64 (.finite .positive m₁ e₁ h₁) (.finite .positive m₂ e₂ h₂) =
      .finite .positive m e hd.pos := by
  refine roundWithAccuracy_eq ?_ (.inl hbits) _ hd.pos hd hq
  have hvalue : (m₁ : ℚ) * 2 ^ e₁ * (m₂ * 2 ^ e₂) / 2 ^ (e₁ + e₂) = ((m₁ * m₂ : ℕ) : ℚ) := by
    rw [two_zpow_add]
    have h1 := (two_zpow_pos e₁).ne'
    have h2 := (two_zpow_pos e₂).ne'
    push_cast
    field_simp
  rw [hvalue]
  exact truncates_exact _

/-- A quotient in the interval of a double is this double. -/
theorem div_near (h₁ : 0 < m₁) (h₂ : 0 < m₂) (he : minExponent ≤ e₁ - e₂)
    (hq : Near m e ((m₁ : ℚ) * 2 ^ e₁ / (m₂ * 2 ^ e₂))) :
    div .binary64 (.finite .positive m₁ e₁ h₁) (.finite .positive m₂ e₂ h₂) =
      .finite .positive m e hd.pos := by
  rcases hcore : divCore .binary64 m₁ e₁ m₂ e₂ with ⟨M, E, acc⟩
  obtain ⟨htr, hbits⟩ := divCore_spec h₁ h₂ he hcore
  show (match divCore .binary64 m₁ e₁ m₂ e₂ with
    | (m, e, acc) => roundWithAccuracy .binary64 (Sign.positive / Sign.positive) m e acc) = _
  rw [hcore]
  exact roundWithAccuracy_eq htr hbits _ hd.pos hd hq

end Operations

/-! ### Doubles without rounding -/

/-- A double is in its own interval. -/
theorem IsDouble.near {m : ℕ} {e : ℤ} (hd : IsDouble m e) : Near m e ((m : ℚ) * 2 ^ e) := by
  have hquarter : (m : ℚ) * 2 ^ e = (4 * m : ℕ) * 2 ^ (e - 2) := by
    rw [zpow_sub₀ (by norm_num)]
    push_cast
    ring
  have hlow : (lowEnd m e : ℚ) * 2 ^ (e - 2) < (4 * m : ℕ) * 2 ^ (e - 2) := by
    apply mul_lt_mul_of_pos_right _ (two_zpow_pos _)
    exact_mod_cast lowEnd_lt hd.pos e
  have hhigh : ((4 * m : ℕ) : ℚ) * 2 ^ (e - 2) < highEnd m * 2 ^ (e - 2) := by
    apply mul_lt_mul_of_pos_right _ (two_zpow_pos _)
    exact_mod_cast lt_highEnd m
  rw [hquarter]
  exact ⟨hlow.le, hhigh.le, fun _ => hlow.ne, fun _ => hhigh.ne⟩

/-- The significand of a natural number below `2 ^ 53`. -/
def normalMantissa (n : ℕ) : ℕ := n * 2 ^ (52 - n.log2)

theorem normalMantissa_value {n : ℕ} (hlog : n.log2 ≤ 52) (k : ℤ) :
    (normalMantissa n : ℚ) * 2 ^ ((n.log2 : ℤ) - 52 + k) = n * 2 ^ k := by
  rw [normalMantissa]
  push_cast
  rw [← zpow_natCast, mul_assoc, ← two_zpow_add]
  congr 2
  omega

theorem le_normalMantissa {n : ℕ} (h : 0 < n) (hlog : n.log2 ≤ 52) :
    2 ^ 52 ≤ normalMantissa n := by
  calc 2 ^ 52 = 2 ^ n.log2 * 2 ^ (52 - n.log2) := by
        rw [← pow_add]
        congr 1
        omega
    _ ≤ n * 2 ^ (52 - n.log2) := Nat.mul_le_mul_right _ (Nat.log2_self_le h.ne')

theorem normalMantissa_lt {n : ℕ} (hlog : n.log2 ≤ 52) : normalMantissa n < 2 ^ 53 := by
  calc n * 2 ^ (52 - n.log2) < 2 ^ (n.log2 + 1) * 2 ^ (52 - n.log2) :=
        Nat.mul_lt_mul_of_pos_right Nat.lt_log2_self (Nat.two_pow_pos _)
    _ = 2 ^ 53 := by
        rw [← pow_add]
        congr 1
        omega

theorem isDouble_normalMantissa {n : ℕ} (h : 0 < n) (hlog : n.log2 ≤ 52) {k : ℤ} (hk : 0 ≤ k)
    (hk' : k ≤ 900) : IsDouble (normalMantissa n) ((n.log2 : ℤ) - 52 + k) where
  pos := lt_of_lt_of_le (by norm_num) (le_normalMantissa h hlog)
  lt := normalMantissa_lt hlog
  least := by
    show -1074 ≤ _
    omega
  most := by omega
  normal := fun hlt => absurd (le_normalMantissa h hlog) (not_le.2 hlt)

/-- A natural number below `2 ^ 53` is a double. -/
theorem unpack_toFloat {n : ℕ} (h : 0 < n) (hlt : n < 2 ^ 53) (hpos : 0 < normalMantissa n) :
    unpack n.toUInt64.toFloat = .finite .positive (normalMantissa n) ((n.log2 : ℤ) - 52) hpos := by
  have hlog : n.log2 ≤ 52 := log2_le h hlt
  have hd := isDouble_normalMantissa h hlog (le_refl 0) (by norm_num)
  rw [add_zero] at hd
  have hn : n.toUInt64.toNat = n := by
    rw [Nat.toUInt64, UInt64.toNat_ofNat', Nat.mod_eq_of_lt (lt_trans hlt (by norm_num))]
  have htarget : max ((n.log2 : ℤ) + 1 + 0 - 53) (-1074) = (n.log2 : ℤ) - 52 := by omega
  have hcompare : compare (n : ℤ) 0 = .gt := by
    rw [Int.compare_eq_gt]
    omega
  have hround : ofNat .binary64 n =
      roundWithAccuracy .binary64 .positive (normalMantissa n) ((n.log2 : ℤ) - 52) .exact := by
    have hshift : (0 - ((n.log2 : ℤ) - 52)).toNat = 52 - n.log2 := by omega
    have hexp : (0 : ℤ) - (52 - n.log2 : ℕ) = (n.log2 : ℤ) - 52 := by omega
    show Float.Model.UnpackedFloat.normalize .binary64 (n : ℤ) 0 .positive = _
    unfold Float.Model.UnpackedFloat.normalize
    rw [hcompare]
    show roundWithAccuracy .binary64 .positive
      (n <<< (0 - max ((n.log2 : ℤ) + 1 + 0 - 53) (-1074)).toNat)
      (0 - ((0 - max ((n.log2 : ℤ) + 1 + 0 - 53) (-1074)).toNat : ℤ)) .exact = _
    rw [htarget, hshift, hexp, Nat.shiftLeft_eq]
    rfl
  show unpack (repack (ofNat .binary64 n.toUInt64.toNat)) = _
  rw [hn, hround, roundWithAccuracy_eq ?_ (.inl (le_normalMantissa h hlog)) .positive hpos hd hd.near,
    unpack_repack_finite _ _ hd]
  rw [mul_div_cancel_right₀ _ (two_zpow_pos _).ne']
  exact truncates_exact _

theorem lt_size_powersOfTen {k : ℕ} (hk : k ≤ 22) :
    k < Float.exactlyRepresentablePowersOfTen.size := by
  simp [Float.exactlyRepresentablePowersOfTen]
  omega

/-- A power of ten that is a double, from the table of them. -/
def powerOfTen (k : ℕ) (hk : k ≤ 22) : Float :=
  have := lt_size_powersOfTen hk
  Float.exactlyRepresentablePowersOfTen[k]

/-- The table has no error. -/
theorem powerOfTen_eq : ∀ k : Fin 23, powerOfTen k.val (Nat.le_of_lt_succ k.isLt) =
    repack (.finite .positive (5 ^ k.val * 2 ^ (52 - (5 ^ k.val).log2))
      (((5 ^ k.val).log2 : ℤ) - 52 + k.val) (by positivity)) := by
  decide +kernel

theorem log2_five_pow_le {k : ℕ} (hk : k ≤ 22) : (5 ^ k).log2 ≤ 52 := by
  apply log2_le (Nat.pow_pos (by decide))
  calc 5 ^ k ≤ 5 ^ 22 := Nat.pow_le_pow_right (by decide) hk
    _ < 2 ^ 53 := by norm_num

theorem unpack_powerOfTen {k : ℕ} (hk : k ≤ 22) (hpos : 0 < normalMantissa (5 ^ k)) :
    unpack (powerOfTen k hk) =
      .finite .positive (normalMantissa (5 ^ k)) (((5 ^ k).log2 : ℤ) - 52 + k) hpos := by
  have hlog := log2_five_pow_le hk
  have hd := isDouble_normalMantissa (Nat.pow_pos (by decide : 0 < 5)) hlog
    (Int.natCast_nonneg k) (by omega)
  rw [powerOfTen_eq ⟨k, by omega⟩]
  exact unpack_repack_finite .positive _ hd

theorem five_pow_mul (k : ℕ) : ((5 ^ k : ℕ) : ℚ) * 2 ^ (k : ℤ) = 10 ^ k := by
  rw [zpow_natCast]
  push_cast
  rw [← mul_pow]
  norm_num

/-! ### Reading a decimal -/

theorem ofDecimal_eq (c : ℕ) (p : ℤ) :
    ofDecimal c p =
      if h : c < 2 ^ 53 ∧ p.natAbs ≤ 22 then
        if p < 0 then c.toUInt64.toFloat / powerOfTen p.natAbs h.2
        else c.toUInt64.toFloat * powerOfTen p.natAbs h.2
      else repack (ofScientific .binary64 c p) := by
  unfold ofDecimal Float.ofScientific
  by_cases h : c < 2 ^ 53 ∧ p.natAbs ≤ 22
  · rw [dif_pos h, dif_pos h]
    by_cases hp : p < 0
    · simp only [hp, decide_true, if_true]
      rfl
    · simp only [hp, decide_false, if_false]
      rfl
  · rw [dif_neg h, dif_neg h]
    have hexp : (if decide (p < 0) = true then Int.negOfNat p.natAbs else Int.ofNat p.natAbs) =
        p := by
      by_cases hp : p < 0
      · simp only [hp, decide_true, if_true, Int.negOfNat_eq]
        show -((p.natAbs : ℕ) : ℤ) = p
        omega
      · simp only [hp, decide_false]
        show ((p.natAbs : ℕ) : ℤ) = p
        omega
    simp only [hexp]
    rfl

/-- Zero is read as zero. -/
theorem unpack_ofDecimal_zero : unpack (ofDecimal 0 0) = .zero .positive := by
  have h : ofDecimal 0 0 = repack (.zero .positive) := by decide +kernel
  rw [h]
  exact unpack_repack_zero .positive

section Reading

variable {m c : ℕ} {e p : ℤ} (hd : IsDouble m e) (hc : 0 < c) (hq : Near m e ((c : ℚ) * 10 ^ p))

include hd hc hq

theorem ofScientific_near (hp : p.natAbs ≤ 2 ^ 11) :
    ofScientific .binary64 c p = .finite .positive m e hd.pos := by
  have hhigh : ¬ p > 2 ^ Format.exponentBits .binary64 := by
    show ¬ p > 2 ^ 11
    omega
  have hlow : ¬ p < -((2 ^ Format.exponentBits .binary64 : ℤ) + c.log2) := by
    show ¬ p < -((2 ^ 11 : ℤ) + c.log2)
    omega
  unfold ofScientific
  rw [dif_neg hc.ne', if_neg hhigh, if_neg hlow]
  by_cases hp0 : 0 ≤ p
  · rw [if_pos hp0]
    have hpow : ((10 ^ p.toNat : ℕ) : ℚ) = 10 ^ p := by
      push_cast
      rw [← zpow_natCast, Int.toNat_of_nonneg hp0]
    refine mul_near hd _ _ ?_ ?_
    · show 2 ^ 52 ≤ c <<< 53 * 10 ^ p.toNat
      rw [Nat.shiftLeft_eq]
      have h10 : 0 < 10 ^ p.toNat := Nat.pow_pos (by decide)
      nlinarith
    · have hvalue : ((c <<< Format.mantissaBits .binary64 : ℕ) : ℚ) *
          2 ^ (-(Format.mantissaBits .binary64 : ℤ)) * ((10 ^ p.toNat : ℕ) * 2 ^ (0 : ℤ)) =
          c * 10 ^ p := by
        rw [hpow, Nat.shiftLeft_eq, zpow_zero, mul_one]
        push_cast
        rw [zpow_neg, zpow_natCast]
        field_simp
      rw [hvalue]
      exact hq
  · rw [if_neg hp0]
    have hpow : ((10 ^ (-p).toNat : ℕ) : ℚ) = (10 ^ p)⁻¹ := by
      push_cast
      rw [← zpow_natCast, Int.toNat_of_nonneg (by omega), zpow_neg]
    refine div_near hd _ _ (by decide) ?_
    rw [hpow, zpow_zero, mul_one, mul_one, div_inv_eq_mul]
    exact hq

/-- **A decimal in the interval of a double is read as this double.** -/
theorem unpack_ofDecimal (hp : p.natAbs ≤ 2 ^ 11) :
    unpack (ofDecimal c p) = .finite .positive m e hd.pos := by
  rw [ofDecimal_eq]
  by_cases h : c < 2 ^ 53 ∧ p.natAbs ≤ 22
  · obtain ⟨hlt, hsmall⟩ := h
    have hlog : c.log2 ≤ 52 := log2_le hc hlt
    have hlog5 := log2_five_pow_le hsmall
    -- Both factors are doubles without rounding, so only their product or quotient is rounded.
    have hbits := le_normalMantissa hc hlog
    have hbits5 := le_normalMantissa (Nat.pow_pos (by decide : 0 < 5)) hlog5
    have hpos : 0 < normalMantissa c := by omega
    have hpos5 : 0 < normalMantissa (5 ^ p.natAbs) := by omega
    have hx := unpack_toFloat hc hlt hpos
    have hy := unpack_powerOfTen hsmall hpos5
    have hcvalue : (normalMantissa c : ℚ) * 2 ^ ((c.log2 : ℤ) - 52) = c := by
      have h := normalMantissa_value hlog 0
      rwa [add_zero, zpow_zero, mul_one] at h
    have htens : (normalMantissa (5 ^ p.natAbs) : ℚ) *
        2 ^ (((5 ^ p.natAbs).log2 : ℤ) - 52 + p.natAbs) = 10 ^ p.natAbs := by
      rw [normalMantissa_value hlog5, five_pow_mul]
    rw [dif_pos ⟨hlt, hsmall⟩]
    by_cases hp0 : p < 0
    · rw [if_pos hp0]
      show unpack (repack (div .binary64 (unpack _) (unpack _))) = _
      rw [hx, hy, div_near hd _ _ ?_ ?_]
      · exact unpack_repack_finite .positive _ hd
      · show -1074 ≤ _
        omega
      · have hpow : (10 : ℚ) ^ p.natAbs = (10 ^ p)⁻¹ := by
          rw [← zpow_natCast, ← zpow_neg]
          congr 1
          omega
        rw [hcvalue, htens, hpow, div_inv_eq_mul]
        exact hq
    · rw [if_neg hp0]
      show unpack (repack (mul .binary64 (unpack _) (unpack _))) = _
      rw [hx, hy, mul_near hd _ _ ?_ ?_]
      · exact unpack_repack_finite .positive _ hd
      · nlinarith
      · have hpow : (10 : ℚ) ^ p.natAbs = 10 ^ p := by
          rw [← zpow_natCast]
          congr 1
          omega
        rw [hcvalue, htens, hpow]
        exact hq
  · rw [dif_neg h, ofScientific_near hd hc hq hp]
    exact unpack_repack_finite .positive _ hd

end Reading

end Framewise.Number
