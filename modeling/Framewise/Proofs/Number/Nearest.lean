import Framewise.Proofs.Number.Difference

/-!
# Nearest doubles

A number is rounded to a double that is nearest to it. Nearest is meant among the numbers with the
significand of a double, `Representable`, at whatever exponent: where a nearest one is too large for a
double, the result is infinite, `Rounds`.

* `Nearest.le`, `Nearest.ge`: a nearest number is on the same side of all representable ones.
* `nearest_of_half`: a significand within half a unit is nearest.
* `rounds_round`: rounding a truncated number.
* `Rounds.exists_between`: what lies between two doubles is rounded to a double between them.
-/

namespace Framewise.Number

open Float.Model (UnpackedFloat)
open Float.Model.UnpackedFloat

/-! ### Representable numbers -/

/-- A number with at most as many bits as a significand, at an exponent that is no lower than those of
doubles. It may be larger than all doubles. -/
def Representable (v : ℚ) : Prop :=
  ∃ n f : ℤ, v = n * 2 ^ f ∧ |n| < 2 ^ 53 ∧ minExponent ≤ f

theorem representable_zero : Representable 0 :=
  ⟨0, 0, by norm_num, by norm_num, by decide⟩

theorem Representable.neg {v : ℚ} (h : Representable v) : Representable (-v) := by
  obtain ⟨n, f, rfl, hn, hf⟩ := h
  refine ⟨-n, f, ?_, by rwa [abs_neg], hf⟩
  rw [Int.cast_neg, neg_mul]

theorem Representable.double {v : ℚ} (h : Representable v) : Representable (2 * v) := by
  obtain ⟨n, f, rfl, hn, hf⟩ := h
  refine ⟨n, f + 1, ?_, hn, hf.trans (by omega)⟩
  rw [two_zpow_add, zpow_one]
  ring

/-- A natural number up to `2 ^ 53` is representable at every exponent. -/
theorem representable_of_le {m : ℕ} {e : ℤ} (hm : m ≤ 2 ^ 53) (he : minExponent ≤ e) :
    Representable ((m : ℚ) * 2 ^ e) := by
  have hshort : ∀ n : ℕ, n < 2 ^ 53 → Representable ((n : ℚ) * 2 ^ e) := by
    intro n hn
    refine ⟨n, e, by rw [Int.cast_natCast], ?_, he⟩
    rw [Nat.abs_cast]
    exact_mod_cast hn
  rcases hm.lt_or_eq with hlt | rfl
  · exact hshort m hlt
  · have hdouble : ((2 ^ 53 : ℕ) : ℚ) * 2 ^ e = 2 * ((2 ^ 52 : ℕ) * 2 ^ e) := by
      push_cast
      ring
    rw [hdouble]
    exact (hshort (2 ^ 52) (by decide)).double

theorem representable_two_zpow {e : ℤ} (he : minExponent ≤ e) : Representable (2 ^ e) := by
  have hone := @representable_of_le 1 e (by decide) he
  rwa [Nat.cast_one, one_mul] at hone

/-- What is an integer at an exponent is one at every lower exponent. -/
theorem exists_multiple (n : ℤ) {f t : ℤ} (h : t ≤ f) : ∃ k : ℤ, (n : ℚ) * 2 ^ f = k * 2 ^ t := by
  refine ⟨n * 2 ^ (f - t).toNat, ?_⟩
  have hpow : (2 : ℚ) ^ f = 2 ^ (f - t).toNat * 2 ^ t := by
    rw [← zpow_natCast, ← two_zpow_add]
    congr 1
    omega
  rw [hpow]
  push_cast
  ring

/-- Representable numbers are multiples of the least double. -/
theorem Representable.multiple {v : ℚ} (h : Representable v) : ∃ k : ℤ, v = k * 2 ^ minExponent := by
  obtain ⟨n, f, rfl, -, hf⟩ := h
  exact exists_multiple n hf

/-- **What is left of a number without its integer part** has no more bits than the number. -/
theorem Representable.fraction {v : ℚ} (h : Representable v) (hv : 0 ≤ v) :
    Representable (v - ⌊v⌋₊) := by
  obtain ⟨n, f, rfl, hn, hf⟩ := h
  have hnonneg : 0 ≤ n := by
    have := nonneg_of_mul_nonneg_left hv (two_zpow_pos f)
    exact_mod_cast this
  lift n to ℕ using hnonneg
  rw [Nat.abs_cast] at hn
  rw [Int.cast_natCast] at hv ⊢
  rcases le_or_gt 0 f with hinteger | hfraction
  · have hdenominator : (-f).toNat = 0 := by omega
    have hwhole : (n : ℚ) * 2 ^ f = ((n * twoPow f.toNat : ℕ) : ℚ) := by
      rw [value_eq_div, hdenominator]
      simp [twoPow]
    rw [hwhole, Nat.floor_natCast, sub_self]
    exact representable_zero
  · have hquotient : ∀ k : ℕ, (k : ℚ) * 2 ^ f = k / (twoPow (-f).toNat : ℕ) := by
      intro k
      have hnumerator : f.toNat = 0 := by omega
      rw [value_eq_div, hnumerator]
      simp [twoPow]
    have hne : ((twoPow (-f).toNat : ℕ) : ℚ) ≠ 0 := Nat.cast_ne_zero.2 (Nat.two_pow_pos _).ne'
    have hsplit : (n : ℚ) = (twoPow (-f).toNat : ℕ) * (n / twoPow (-f).toNat : ℕ) +
        (n % twoPow (-f).toNat : ℕ) := by
      exact_mod_cast (Nat.div_add_mod n _).symm
    have hrest : (n : ℚ) * 2 ^ f - ⌊(n : ℚ) * 2 ^ f⌋₊ = (n % twoPow (-f).toNat : ℕ) * 2 ^ f := by
      rw [hquotient, hquotient, Nat.floor_div_eq_div, eq_div_iff hne, sub_mul, div_mul_cancel₀ _ hne]
      linarith
    rw [hrest]
    refine representable_of_le ((Nat.mod_le n _).trans ?_) hf
    exact_mod_cast hn.le

/-- No representable number is nearer to one from below. -/
theorem Representable.le_of_lt_one {v : ℚ} (h : Representable v) (hv : v < 1) :
    v ≤ 1 - 2 ^ (-53 : ℤ) := by
  obtain ⟨n, f, rfl, hn, -⟩ := h
  rcases lt_or_ge f (-53) with hlow | hhigh
  · have hn' : (n : ℚ) ≤ 2 ^ (53 : ℤ) := by
      have hle := (le_abs_self n).trans hn.le
      exact_mod_cast hle
    calc (n : ℚ) * 2 ^ f ≤ 2 ^ (53 : ℤ) * 2 ^ f :=
          mul_le_mul_of_nonneg_right hn' (two_zpow_pos f).le
      _ = 2 ^ (53 + f) := (two_zpow_add 53 f).symm
      _ ≤ 2 ^ (-1 : ℤ) := zpow_le_zpow_right₀ one_le_two (by omega)
      _ ≤ 1 - 2 ^ (-53 : ℤ) := by norm_num
  · obtain ⟨k, hk⟩ := exists_multiple n hhigh
    rw [hk] at hv ⊢
    have hone : (1 : ℚ) = 2 ^ (53 : ℤ) * 2 ^ (-53 : ℤ) := by norm_num
    rw [hone, mul_lt_mul_iff_left₀ (two_zpow_pos _)] at hv
    have hk' : k + 1 ≤ 2 ^ 53 := by exact_mod_cast hv
    have hk'' : (k : ℚ) ≤ 2 ^ (53 : ℤ) - 1 := by
      rw [le_sub_iff_add_le]
      exact_mod_cast hk'
    calc (k : ℚ) * 2 ^ (-53 : ℤ) ≤ (2 ^ (53 : ℤ) - 1) * 2 ^ (-53 : ℤ) :=
          mul_le_mul_of_nonneg_right hk'' (two_zpow_pos _).le
      _ = 1 - 2 ^ (-53 : ℤ) := by norm_num

/-- A finite double is zero, or has a significand and an exponent. -/
theorem form_of_rational? {x : Float} {p : ℚ} (h : rational? x = some p) :
    (∃ s, unpack x = .zero s ∧ p = 0) ∨
      ∃ s m e, ∃ hd : IsDouble m e, unpack x = .finite s m e hd.pos ∧ p = s.apply m * 2 ^ e := by
  have hform := form_unpack x
  cases hx : unpack x with
  | notANumber | infinity s =>
    unfold rational? at h
    rw [hx] at h
    cases h
  | zero s =>
    unfold rational? at h
    rw [hx] at h
    exact .inl ⟨s, rfl, (Option.some.inj h).symm⟩
  | finite s m e hpos =>
    rw [rational?_finite hx] at h
    rw [hx] at hform
    obtain _ | _ | _ | ⟨_, _, hd⟩ := hform
    exact .inr ⟨s, m, e, hd, rfl, (Option.some.inj h).symm⟩

theorem apply_mul (s : Sign) (m : ℕ) (r : ℚ) : (s.apply m : ℚ) * r = s.apply 1 * (m * r) := by
  cases s <;> simp [Sign.apply]

theorem abs_value (s : Sign) (m : ℕ) (e : ℤ) : |(s.apply m : ℚ) * 2 ^ e| = m * 2 ^ e := by
  rw [abs_mul, abs_of_pos (two_zpow_pos e)]
  cases s <;> simp [Sign.apply]

/-- Positive finite doubles. -/
theorem exists_isDouble {x : Float} {p : ℚ} (h : rational? x = some p) (hp : 0 < p) :
    ∃ m e, IsDouble m e ∧ p = m * 2 ^ e := by
  rcases form_of_rational? h with ⟨s, -, rfl⟩ | ⟨s, m, e, hd, -, rfl⟩
  · exact absurd hp (lt_irrefl 0)
  · refine ⟨m, e, hd, ?_⟩
    cases s with
    | negative =>
      have hpos := value_pos hd
      rw [apply_mul] at hp
      norm_num [Sign.apply] at hp
      linarith
    | positive => rfl

theorem representable_of_rational? {x : Float} {p : ℚ} (h : rational? x = some p) :
    Representable p := by
  rcases form_of_rational? h with ⟨s, -, rfl⟩ | ⟨s, m, e, hd, -, rfl⟩
  · exact representable_zero
  · have hm := representable_of_le hd.lt.le hd.least
    rw [apply_mul]
    cases s with
    | negative => simpa [Sign.apply] using hm.neg
    | positive => simpa [Sign.apply] using hm

theorem isFinite_iff {x : Float} : x.isFinite = true ↔ ∃ p, rational? x = some p := by
  show (unpack x).isFinite = true ↔ _
  unfold rational?
  cases unpack x with
  | notANumber | infinity s => simp [UnpackedFloat.isFinite]
  | zero s | finite s m e h => simp [UnpackedFloat.isFinite]

/-! ### Nearest numbers -/

/-- A representable number that no other is nearer to `q` than. -/
structure Nearest (v q : ℚ) : Prop where
  representable : Representable v
  near : ∀ g, Representable g → |v - q| ≤ |g - q|

section Nearest

variable {v q g : ℚ}

theorem Nearest.neg (h : Nearest v q) : Nearest (-v) (-q) := by
  refine ⟨h.representable.neg, ?_⟩
  intro g hg
  have hnear := h.near (-g) hg.neg
  rw [← abs_neg, ← abs_neg (-g - q)] at hnear
  have hleft : -v - -q = -(v - q) := by ring
  have hright : g - -q = -(-g - q) := by ring
  rwa [hleft, hright]

theorem Nearest.signed (h : Nearest v q) (s : Sign) : Nearest (s.apply 1 * v) (s.apply 1 * q) := by
  cases s with
  | negative => simpa [Sign.apply] using h.neg
  | positive => simpa [Sign.apply] using h

/-- A nearest number is not above a representable one that is not below. -/
theorem Nearest.le (h : Nearest v q) (hg : Representable g) (hq : q ≤ g) : v ≤ g := by
  by_contra hgt
  have hnear := h.near g hg
  rw [abs_of_nonneg (by linarith), abs_of_nonneg (by linarith)] at hnear
  linarith

theorem Nearest.ge (h : Nearest v q) (hg : Representable g) (hq : g ≤ q) : g ≤ v := by
  have hneg := h.neg.le hg.neg (neg_le_neg hq)
  linarith

/-- **A representable number is the only one nearest to it.** -/
theorem Nearest.eq (h : Nearest v q) (hq : Representable q) : v = q :=
  le_antisymm (h.le hq le_rfl) (h.ge hq le_rfl)

theorem nearest_self (h : Representable q) : Nearest q q := by
  refine ⟨h, ?_⟩
  intro g hg
  rw [sub_self, abs_zero]
  exact abs_nonneg _

end Nearest

/-! ### Rounding a truncated number -/

/-- A rounded significand is within half a unit. -/
theorem Truncates.near {em : ExtendedMantissa} {t : ℚ} (h : Truncates em t) :
    |(em.roundedMantissa : ℚ) - t| ≤ 1 / 2 := by
  obtain ⟨hge, hlt⟩ := h.bounds
  rw [abs_le]
  rcases h.rounded with ⟨hbelow, heq⟩ | ⟨htie, heq⟩ | ⟨habove, heq⟩
  · rw [heq]
    constructor <;> linarith
  · -- Halfway between two neighbours either one is within half a unit.
    rw [heq, htie]
    rcases Nat.mod_two_eq_zero_or_one em.mantissa with hm | hm
    · rw [hm]
      push_cast
      constructor <;> linarith
    · rw [hm]
      push_cast
      constructor <;> linarith
  · rw [heq]
    push_cast
    constructor <;> linarith

/-- An integer within half a unit is nearest among the integers. -/
theorem abs_sub_le_of_half {r n : ℤ} {t : ℚ} (h : |(r : ℚ) - t| ≤ 1 / 2) :
    |(r : ℚ) - t| ≤ |(n : ℚ) - t| := by
  rcases eq_or_ne n r with rfl | hne
  · exact le_rfl
  · have hapart : (1 : ℚ) ≤ |(n : ℚ) - r| := by
      exact_mod_cast Int.one_le_abs (sub_ne_zero.2 hne)
    have htriangle := abs_sub_le (n : ℚ) t r
    rw [abs_sub_comm t r] at htriangle
    linarith

/-- So it is at an exponent. -/
theorem abs_mul_sub_le_of_half {r n t : ℤ} {q : ℚ} (h : |(r : ℚ) - q / 2 ^ t| ≤ 1 / 2) :
    |(r : ℚ) * 2 ^ t - q| ≤ |(n : ℚ) * 2 ^ t - q| := by
  have hpos := two_zpow_pos t
  have hscaled : ∀ w : ℚ, |w * 2 ^ t - q| = |w - q / 2 ^ t| * 2 ^ t := by
    intro w
    have hsplit : w * 2 ^ t - q = (w - q / 2 ^ t) * 2 ^ t := by
      field_simp
    rw [hsplit, abs_mul, abs_of_pos hpos]
  rw [hscaled, hscaled]
  exact mul_le_mul_of_nonneg_right (abs_sub_le_of_half h) hpos.le

/-- **A significand within half a unit is nearest**, not only at its own exponent: what is representable at
a lower one is no greater than a power of two, which is representable here too. -/
theorem nearest_of_half {r : ℕ} {t : ℤ} {q : ℚ} (h : |(r : ℚ) - q / 2 ^ t| ≤ 1 / 2) (hr : r ≤ 2 ^ 53)
    (ht : minExponent ≤ t) (hq : minExponent < t → (2 : ℚ) ^ (52 + t) ≤ q) :
    Nearest (r * 2 ^ t) q := by
  have hinteger : ∀ n : ℤ, |(r : ℚ) * 2 ^ t - q| ≤ |(n : ℚ) * 2 ^ t - q| :=
    fun n => abs_mul_sub_le_of_half (r := r) h
  refine ⟨representable_of_le hr ht, ?_⟩
  rintro g ⟨n, f, rfl, hn, hf⟩
  rcases le_or_gt t f with htf | hft
  · obtain ⟨k, hk⟩ := exists_multiple n htf
    rw [hk]
    exact hinteger k
  · have hn' : (n : ℚ) ≤ 2 ^ (53 : ℤ) := by
      have hle := (le_abs_self n).trans hn.le
      exact_mod_cast hle
    have hbelow : (n : ℚ) * 2 ^ f ≤ 2 ^ (52 + t) :=
      calc (n : ℚ) * 2 ^ f ≤ 2 ^ (53 : ℤ) * 2 ^ f :=
            mul_le_mul_of_nonneg_right hn' (two_zpow_pos f).le
        _ = 2 ^ (53 + f) := (two_zpow_add 53 f).symm
        _ ≤ 2 ^ (52 + t) := zpow_le_zpow_right₀ one_le_two (by omega)
    have hpower := hq (hf.trans_lt hft)
    have hcast : ((2 ^ 52 : ℤ) : ℚ) * 2 ^ t = 2 ^ (52 + t) := by
      rw [two_zpow_add]
      norm_num
    have hnearer := hinteger (2 ^ 52)
    rw [hcast, abs_of_nonpos (sub_nonpos.2 hpower)] at hnearer
    rw [abs_of_nonpos (show (n : ℚ) * 2 ^ f - q ≤ 0 by linarith)]
    linarith

section Round

variable {M : ℕ} {E : ℤ} {acc : Accuracy} {q : ℚ}
  (htr : Truncates (.ofMantissaAndAccuracy M acc) (q / 2 ^ E)) (hE : E ≤ target M E)

include htr

theorem lt_two_zpow_target : q < 2 ^ (53 + target M E) := by
  apply (lt_two_zpow_log2 htr).trans_le
  apply zpow_le_zpow_right₀ one_le_two
  have hmax := le_max_left ((M.log2 : ℤ) + 1 + E - 53) minExponent
  unfold target
  omega

include hE

/-- Above the least exponent a number is shifted until its significand is full. -/
theorem two_zpow_le_of_target (ht : minExponent < target M E) : (2 : ℚ) ^ (52 + target M E) ≤ q := by
  have htarget : target M E = (M.log2 : ℤ) + 1 + E - 53 := by
    unfold target at ht ⊢
    omega
  rcases Nat.eq_zero_or_pos M with rfl | hM
  · have hlog : (0 : ℕ).log2 = 0 := by decide
    omega
  · obtain ⟨hlow, hhigh⟩ := truncation_bounds htr
    have hexp : 52 + target M E = (M.log2 : ℤ) + E := by omega
    rw [hexp]
    exact (log2_bounds hM hlow hhigh).1

/-- What the first shift of rounding gives: a significand that may have one bit too many. -/
theorem rounded_bounds :
    let r := (shiftToTargetExponent .binary64 M E acc).1.roundedMantissa
    |(r : ℚ) - q / 2 ^ target M E| ≤ 1 / 2 ∧ r ≤ 2 ^ 53 ∧
      (minExponent < target M E → 2 ^ 52 ≤ r) := by
  intro r
  have hnear : |(r : ℚ) - q / 2 ^ target M E| ≤ 1 / 2 := (htr.target hE).near
  obtain ⟨hlow, hhigh⟩ := abs_le.1 hnear
  have hpos := two_zpow_pos (target M E)
  refine ⟨hnear, ?_, ?_⟩
  · have hbelow : q / 2 ^ target M E < 2 ^ (53 : ℤ) := by
      rw [div_lt_iff₀ hpos, ← two_zpow_add]
      exact lt_two_zpow_target htr
    have hlt : (r : ℚ) < ((2 ^ 53 + 1 : ℕ) : ℚ) := by
      push_cast
      norm_num at hbelow
      linarith
    have := Nat.cast_lt.1 hlt
    omega
  · intro ht
    have habove : (2 : ℚ) ^ (52 : ℤ) ≤ q / 2 ^ target M E := by
      rw [le_div_iff₀ hpos, ← two_zpow_add]
      exact two_zpow_le_of_target htr hE ht
    have hlt : ((2 ^ 52 : ℕ) : ℚ) < ((r + 1 : ℕ) : ℚ) := by
      push_cast
      norm_num at habove
      linarith
    have := Nat.cast_lt.1 hlt
    omega

theorem nearest_rounded :
    Nearest ((shiftToTargetExponent .binary64 M E acc).1.roundedMantissa * 2 ^ target M E) q := by
  obtain ⟨hnear, hmost, -⟩ := rounded_bounds htr hE
  exact nearest_of_half hnear hmost (le_max_right _ _) (two_zpow_le_of_target htr hE)

end Round

/-! ### Rounded doubles -/

/-- The double `x` is what `q` is rounded to: it stands for a nearest number, or this is too large and the
double is not finite. -/
def Rounds (x : Float) (q : ℚ) : Prop :=
  ∃ v, Nearest v q ∧ (rational? x = some v ∨ (2 : ℚ) ^ (1024 : ℤ) ≤ |v| ∧ rational? x = none)

theorem Rounds.nearest {x : Float} {v q : ℚ} (h : Rounds x q) (hx : rational? x = some v) :
    Nearest v q := by
  obtain ⟨w, hw, heq | ⟨-, hnone⟩⟩ := h
  · rw [hx] at heq
    obtain rfl := Option.some.inj heq
    exact hw
  · rw [hx] at hnone
    cases hnone

/-- What a nearest number that is not too large is rounded to. -/
theorem Rounds.rational?_eq {x : Float} {q : ℚ} (h : Rounds x q) (hq : Representable q)
    (hsize : |q| < 2 ^ (1024 : ℤ)) : rational? x = some q := by
  obtain ⟨v, hv, heq | ⟨hlarge, -⟩⟩ := h
  · rw [heq, hv.eq hq]
  · rw [hv.eq hq] at hlarge
    exact absurd hsize (not_lt.2 hlarge)

theorem rational?_lt {x : Float} {p : ℚ} (h : rational? x = some p) : |p| < 2 ^ (1024 : ℤ) := by
  rcases form_of_rational? h with ⟨s, -, rfl⟩ | ⟨s, m, e, hd, -, rfl⟩
  · rw [abs_zero]
    exact two_zpow_pos 1024
  · have hm : (m : ℚ) < 2 ^ (53 : ℤ) := by exact_mod_cast hd.lt
    rw [abs_value]
    calc (m : ℚ) * 2 ^ e < 2 ^ (53 : ℤ) * 2 ^ e := mul_lt_mul_of_pos_right hm (two_zpow_pos e)
      _ = 2 ^ (53 + e) := (two_zpow_add 53 e).symm
      _ ≤ 2 ^ (1024 : ℤ) := zpow_le_zpow_right₀ one_le_two (by linarith [hd.most])

/-- **What lies between two doubles is rounded to a double between them.** -/
theorem Rounds.exists_between {x y z : Float} {a b r : ℚ} (h : Rounds z r) (hx : rational? x = some a)
    (hy : rational? y = some b) (har : a ≤ r) (hrb : r ≤ b) :
    ∃ c, rational? z = some c ∧ a ≤ c ∧ c ≤ b := by
  obtain ⟨v, hv, heq | ⟨hlarge, -⟩⟩ := h
  · exact ⟨v, heq, hv.ge (representable_of_rational? hx) har, hv.le (representable_of_rational? hy) hrb⟩
  · have hlow := hv.ge (representable_of_rational? hx) har
    have hhigh := hv.le (representable_of_rational? hy) hrb
    obtain ⟨ha, -⟩ := abs_lt.1 (rational?_lt hx)
    obtain ⟨-, hb⟩ := abs_lt.1 (rational?_lt hy)
    have hsize : |v| < 2 ^ (1024 : ℤ) := abs_lt.2 ⟨by linarith, by linarith⟩
    exact absurd hsize (not_lt.2 hlarge)

/-- What is not beyond the greatest power of two is rounded to a finite double. -/
theorem Rounds.isFinite {x : Float} {q : ℚ} (h : Rounds x q) (hq : |q| ≤ 2 ^ (1023 : ℤ)) :
    x.isFinite = true := by
  obtain ⟨v, hv, heq | ⟨hlarge, -⟩⟩ := h
  · exact isFinite_iff.2 ⟨v, heq⟩
  · have hpower : Representable (2 ^ (1023 : ℤ)) := representable_two_zpow (by decide)
    obtain ⟨hlow, hhigh⟩ := abs_le.1 hq
    have hsize : |v| ≤ 2 ^ (1023 : ℤ) := abs_le.2 ⟨hv.ge hpower.neg hlow, hv.le hpower hhigh⟩
    have hnext : (2 : ℚ) ^ (1023 : ℤ) < 2 ^ (1024 : ℤ) := two_zpow_lt_iff.2 (by decide)
    exact absurd (hsize.trans_lt hnext) (not_lt.2 hlarge)

/-- Doubles stand for themselves. -/
theorem rounds_self {x : Float} {p : ℚ} (h : rational? x = some p) : Rounds x p :=
  ⟨p, nearest_self (representable_of_rational? h), .inl h⟩

theorem rational?_repack_zero (s : Sign) : rational? (repack (.zero s)) = some 0 := by
  unfold rational?
  rw [unpack_repack_zero]

/-- Packing keeps the number that a full significand stands for, unless the exponent is too high. -/
theorem rational?_repack (s : Sign) {m : ℕ} {e : ℤ} (h : 0 < m) (hlt : m < 2 ^ 53)
    (he : minExponent ≤ e) (hfull : minExponent < e → 2 ^ 52 ≤ m) :
    rational? (repack (.finite s m e h)) = some ((s.apply m : ℚ) * 2 ^ e) ∨
      (2 : ℚ) ^ (1024 : ℤ) ≤ |(s.apply m : ℚ) * 2 ^ e| ∧ rational? (repack (.finite s m e h)) = none := by
  rcases le_or_gt e 971 with hmost | hover
  · left
    have hd : IsDouble m e := by
      refine ⟨h, hlt, he, hmost, ?_⟩
      intro hshort
      by_contra hne
      have := hfull (lt_of_le_of_ne he (Ne.symm hne))
      omega
    exact rational?_finite (unpack_repack_finite s h hd)
  · right
    constructor
    · have hm : (2 : ℚ) ^ (52 : ℤ) ≤ m := by
        have hlong := hfull (lt_trans (by decide) hover)
        exact_mod_cast hlong
      rw [abs_value]
      calc (2 : ℚ) ^ (1024 : ℤ) = 2 ^ (52 : ℤ) * 2 ^ (972 : ℤ) := two_zpow_add 52 972
        _ ≤ m * 2 ^ e := by
          apply mul_le_mul hm _ (two_zpow_pos _).le (Nat.cast_nonneg m)
          exact zpow_le_zpow_right₀ one_le_two (by omega)
    · unfold rational?
      rw [unpack_repack_overflow s h hover]

/-- A significand of 53 bits keeps all of them, and one of 54 bits all but the last. -/
theorem shift_eq_zero {r : ℕ} {t : ℤ} (hr : r < 2 ^ 53) (ht : -1074 ≤ t) :
    (target r t - t).toNat = 0 := by
  have hlog : r.log2 ≤ 52 := by
    rcases Nat.eq_zero_or_pos r with rfl | hpos
    · decide
    · exact log2_le hpos hr
  show (max ((r.log2 : ℤ) + 1 + t - 53) (-1074) - t).toNat = 0
  omega

theorem shift_eq_one {t : ℤ} (ht : -1074 ≤ t) : (target (2 ^ 53) t - t).toNat = 1 := by
  show (max (((2 ^ 53 : ℕ).log2 : ℤ) + 1 + t - 53) (-1074) - t).toNat = 1
  rw [Nat.log2_two_pow]
  omega

/-- **Rounding a truncated number** gives a nearest one with its sign. -/
theorem rounds_round (s : Sign) {M : ℕ} {E : ℤ} {acc : Accuracy} {q : ℚ}
    (htr : Truncates (.ofMantissaAndAccuracy M acc) (q / 2 ^ E)) (hE : E ≤ target M E) :
    Rounds (repack (roundWithAccuracy .binary64 s M E acc)) (s.apply 1 * q) := by
  obtain ⟨-, hmost, hfull⟩ := rounded_bounds htr hE
  have hnearest := nearest_rounded htr hE
  have hleast : -1074 ≤ target M E := le_max_right _ _
  have hexp : (shiftToTargetExponent .binary64 M E acc).2 = target M E := by
    rw [shiftToTargetExponent_eq acc hE]
  have heq := fun k => @roundWithAccuracy_eq_dite s M _ E _ acc hexp rfl k
  generalize (shiftToTargetExponent .binary64 M E acc).1.roundedMantissa = r
    at hmost hfull hnearest heq
  generalize target M E = t at hfull hnearest hleast heq
  refine ⟨_, hnearest.signed s, ?_⟩
  rcases hmost.lt_or_eq with hlt | rfl
  · rw [heq 0 (shift_eq_zero hlt hleast)]
    simp only [pow_zero, Nat.div_one, Nat.cast_zero, add_zero]
    split
    · next hzero =>
      left
      rw [rational?_repack_zero, hzero, Nat.cast_zero, zero_mul, mul_zero]
    · next hpos =>
      rw [← apply_mul]
      exact rational?_repack s (Nat.pos_of_ne_zero hpos) hlt hleast hfull
  · -- One bit too many: the same number has a full significand at the next exponent.
    have hvalue : (s.apply 1 : ℚ) * ((2 ^ 53 : ℕ) * 2 ^ t) = s.apply (2 ^ 52 : ℕ) * 2 ^ (t + 1) := by
      rw [apply_mul, two_zpow_add, zpow_one]
      push_cast
      ring
    have hexponent : minExponent ≤ t + 1 := by
      show -1074 ≤ t + 1
      omega
    rw [heq 1 (shift_eq_one hleast), hvalue]
    exact rational?_repack s (Nat.two_pow_pos 52) (by decide) hexponent fun _ => le_rfl

end Framewise.Number
