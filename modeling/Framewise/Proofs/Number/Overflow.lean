import Framewise.Proofs.Number.Decimal
import Framewise.Proofs.Number.Zero

/-!
# Where quotients stay finite

Only an exponent above that of all doubles makes a rounded form infinite. Rounding a number to a
significand adds at most one to its exponent, so what is well below the greatest double stays
finite; a quotient by two or more is.

* `isFinite_repack`: forms with the exponent of a double are packed as finite doubles.
* `isFinite_round`: a number well below the greatest double is rounded to a finite one.
* `isFinite_div`: a finite double divided by two or more.
-/

namespace Framewise.Number

open Float.Model (UnpackedFloat Format)
open Float.Model.UnpackedFloat

/-! ### Packing -/

/-- Bits whose exponent is not the greatest one are those of a finite double. -/
theorem isFinite_unpack_packComponents (s : Sign) {e : BitVec 11} (m : BitVec 52)
    (he : e.toNat < 2 ^ 11 - 1) :
    (Float.Model.UnpackedFloat.unpack .binary64 (packComponents .binary64 s e m)).isFinite =
      true := by
  have hmost : ¬ e = -1#11 := by
    rintro rfl
    exact absurd he (by decide)
  rw [unpack_packComponents, if_neg hmost]
  split
  · split
    · rfl
    · rfl
  · rfl

/-- A form with the exponent of a double is packed as a finite double, whatever its significand. -/
theorem isFinite_repack (s : Sign) {m : ℕ} {e : ℤ} (h : 0 < m) (he : e ≤ 971) :
    (unpack (repack (.finite s m e h))).isFinite = true := by
  have hbiased : (e + 1075).toNat < 2 ^ 11 - 1 := by omega
  have hfits : ¬ 2 ^ 11 ≤ (e + 1075).toNat + 1 := by omega
  rw [unpack_repack, pack_finite, if_neg hfits]
  split
  · apply isFinite_unpack_packComponents
    rw [BitVec.toNat_ofNat, Nat.mod_eq_of_lt (by omega)]
    exact hbiased
  · exact isFinite_unpack_packComponents s _ (by decide)

/-! ### Rounding -/

section Rounding

variable {M : ℕ} {E : ℤ} {acc : Accuracy} {q : ℚ}
  (htr : Truncates (.ofMantissaAndAccuracy M acc) (q / 2 ^ E)) (hbits : 2 ^ 52 ≤ M ∨ E = minExponent)

include htr

/-- A number is below the power of two that its truncation has bits for. -/
theorem lt_two_zpow_log2 : q < 2 ^ ((M.log2 : ℤ) + E + 1) := by
  obtain ⟨hlow, hhigh⟩ := truncation_bounds htr
  rcases Nat.eq_zero_or_pos M with rfl | hM
  · calc q < ((0 : ℕ) + 1) * 2 ^ E := hhigh
      _ = 2 ^ E := by rw [Nat.cast_zero, zero_add, one_mul]
      _ ≤ 2 ^ (((0 : ℕ).log2 : ℤ) + E + 1) := by
        apply zpow_le_zpow_right₀ one_le_two
        omega
  · exact (log2_bounds hM hlow hhigh).2

include hbits

/-- A rounded significand has at most one bit too many. -/
theorem roundedMantissa_le :
    (shiftToTargetExponent .binary64 M E acc).1.roundedMantissa ≤ 2 ^ 53 := by
  have htrunc := (htr.target (le_target hbits)).bounds.1
  have htarget : (M.log2 : ℤ) + E + 1 ≤ 53 + target M E := by
    have := le_max_left ((M.log2 : ℤ) + 1 + E - 53) minExponent
    unfold target
    omega
  have hbelow : q < 2 ^ (53 : ℤ) * 2 ^ target M E :=
    calc q < 2 ^ ((M.log2 : ℤ) + E + 1) := lt_two_zpow_log2 htr
      _ ≤ 2 ^ (53 + target M E) := zpow_le_zpow_right₀ one_le_two htarget
      _ = 2 ^ (53 : ℤ) * 2 ^ target M E := two_zpow_add 53 _
  have hmantissa : ((shiftToTargetExponent .binary64 M E acc).1.mantissa : ℚ) < 2 ^ (53 : ℤ) :=
    htrunc.trans_lt ((div_lt_iff₀ (two_zpow_pos _)).2 hbelow)
  have hlt : (shiftToTargetExponent .binary64 M E acc).1.mantissa < 2 ^ 53 := by
    exact_mod_cast hmantissa
  have := roundedMantissa_le_succ (shiftToTargetExponent .binary64 M E acc).1
  omega

/-- A number below `2 ^ 1023` is shifted to an exponent below the greatest one. -/
theorem target_le (hq : q < 2 ^ (1023 : ℤ)) : target M E ≤ 970 := by
  obtain ⟨hlow, hhigh⟩ := truncation_bounds htr
  show max ((M.log2 : ℤ) + 1 + E - 53) (-1074) ≤ 970
  rcases Nat.eq_zero_or_pos M with rfl | hM
  · have hE : E = -1074 := hbits.resolve_left (by decide)
    have hlog : (0 : ℕ).log2 = 0 := by decide
    omega
  · have hlog : (M.log2 : ℤ) + E < 1023 :=
      two_zpow_lt_iff.1 ((log2_bounds hM hlow hhigh).1.trans_lt hq)
    omega

/-- **A number below `2 ^ 1023` is rounded to a finite double.** -/
theorem isFinite_round (s : Sign) (hq : q < 2 ^ (1023 : ℤ)) :
    (unpack (repack (roundWithAccuracy .binary64 s M E acc))).isFinite = true := by
  have hmantissa := roundedMantissa_le htr hbits
  have hexponent : (shiftToTargetExponent .binary64 M E acc).2 ≤ 970 := by
    rw [shiftToTargetExponent_eq acc (le_target hbits)]
    exact target_le htr hbits hq
  unfold roundWithAccuracy
  generalize shiftToTargetExponent .binary64 M E acc = first at hmantissa hexponent
  obtain ⟨em, e⟩ := first
  simp only at hmantissa hexponent ⊢
  have hlog : em.roundedMantissa.log2 ≤ 53 := by
    rcases Nat.eq_zero_or_pos em.roundedMantissa with hzero | hpos
    · rw [hzero]
      decide
    · exact log2_le hpos (by omega)
  have hsecond : (shiftToTargetExponent .binary64 em.roundedMantissa e .exact).2 ≤ 971 := by
    show e + ((max ((em.roundedMantissa.log2 : ℤ) + 1 + e - 53) (-1074)) - e).toNat ≤ 971
    omega
  split
  · rw [unpack_repack_zero]
    rfl
  · exact isFinite_repack s _ hsecond

end Rounding

/-! ### Quotients -/

/-- **A finite double divided by two or more is finite.** -/
theorem isFinite_div {x y : Float} {s : Sign} {m : ℕ} {e : ℤ} {h : 0 < m} (hx : x.isFinite = true)
    (hy : unpack y = .finite s m e h) (htwo : (2 : ℚ) ≤ m * 2 ^ e) (he : e ≤ 0) :
    (x / y).isFinite = true := by
  have hform := form_unpack x
  have hfinite : (unpack x).isFinite = true := hx
  show (unpack (repack (div .binary64 (unpack x) (unpack y)))).isFinite = true
  rw [hy]
  generalize unpack x = u at hform hfinite
  cases hform with
  | notANumber => cases hfinite
  | infinity t => cases hfinite
  | zero t =>
    show (unpack (repack (.zero (t / s)))).isFinite = true
    rw [unpack_repack_zero]
    rfl
  | @finite t n f hpos hd =>
    rcases hcore : divCore .binary64 n f m e with ⟨M, E, acc⟩
    have hleast : -1074 ≤ f := hd.least
    obtain ⟨htr, hbits⟩ := divCore_spec hpos h (show minExponent ≤ f - e by show -1074 ≤ _; omega) hcore
    show (unpack (repack (match divCore .binary64 n f m e with
      | (m, e, acc) => roundWithAccuracy .binary64 (t / s) m e acc))).isFinite = true
    rw [hcore]
    have hn : (n : ℚ) < 2 ^ (53 : ℤ) := by exact_mod_cast hd.lt
    have hf : (2 : ℚ) ^ f ≤ 2 ^ (971 : ℤ) := zpow_le_zpow_right₀ one_le_two hd.most
    apply isFinite_round htr hbits
    calc (n : ℚ) * 2 ^ f / (m * 2 ^ e) ≤ n * 2 ^ f / 2 :=
          div_le_div_of_nonneg_left (by positivity) two_pos htwo
      _ = n * 2 ^ f * 2 ^ (-1 : ℤ) := by rw [zpow_neg_one, div_eq_mul_inv]
      _ < 2 ^ (53 : ℤ) * 2 ^ (971 : ℤ) * 2 ^ (-1 : ℤ) :=
          mul_lt_mul_of_pos_right (mul_lt_mul hn hf (two_zpow_pos f) (two_zpow_pos 53).le)
            (two_zpow_pos (-1))
      _ = 2 ^ (1023 : ℤ) := by rw [← two_zpow_add, ← two_zpow_add]; rfl

end Framewise.Number
