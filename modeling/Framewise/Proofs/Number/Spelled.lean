import Framewise.Proofs.Number.Grammar
import Framewise.Proofs.Number.Value
import Framewise.Proofs.Number.Zero

/-!
# The text of a number is a numeral

The text of a double is one of the numerals that a log may hold, and it denotes the double. Only the
sign of zero is lost.

* `pointed_decimal`: a decimal that is written in full has no more digits behind the point than its
  exponent asks for.
* `exists_decimal`: however a decimal is laid out, it is a numeral for this decimal.
* `spells_chars`: the text of a double is a numeral for this double.
-/

namespace Framewise.Number

open Float.Model.UnpackedFloat

/-! ### Layouts -/

/-- A number with the point there is written in full: the point stands behind some of its digits, or
some zeros stand between the point and its digits. -/
def Layout.InFull (layout : Layout) (point : ℤ) : Prop :=
  0 < point ∧ point ≤ layout.wholeDigits ∨ -layout.fractionZeros < point ∧ point ≤ 0

theorem forall_isDigit_zeros_append {ds : List Char} (k : ℕ) (h : ∀ d ∈ ds, d.isDigit = true) :
    ∀ d ∈ List.replicate k '0' ++ ds, d.isDigit = true := by
  refine List.forall_mem_append.2 ⟨?_, h⟩
  intro d hd
  rw [List.eq_of_mem_replicate hd]
  rfl

section Layouts

variable (layout : Layout) (c : ℕ) (p : ℤ)

/-- **A decimal that is written in full** is digits with at most one point. Those behind the point are
as many as its exponent says. -/
theorem pointed_decimal (h : layout.InFull ((digits c).length + p)) :
    ∃ whole fraction, Pointed (layout.decimal c p) whole fraction ∧
      digitsValue (whole ++ fraction) = c * 10 ^ p.toNat ∧ fraction.length = (-p).toNat := by
  unfold Layout.InFull at h
  have hdigits : ∀ d ∈ digits c, d.isDigit = true := fun _ => digits_isDigit
  have hne := digits_ne_nil c
  have hvalue := digitsValue_digits c
  have hlength : 0 < (digits c).length := List.length_pos_iff.2 hne
  unfold Layout.decimal Layout.place
  simp only
  split
  · have hzeros : ((digits c).length + p - (digits c).length).toNat = p.toNat := by omega
    have hwhole : Digits (digits c ++ List.replicate p.toNat '0') := by
      refine ⟨List.append_ne_nil_of_left_ne_nil hne _, List.forall_mem_append.2 ⟨hdigits, ?_⟩⟩
      have h := forall_isDigit_zeros_append p.toNat (List.forall_mem_nil _)
      rwa [List.append_nil] at h
    rw [hzeros]
    refine ⟨_, _, .whole hwhole, ?_, ?_⟩
    · rw [List.append_nil, digitsValue_append_zeros, hvalue]
    · rw [List.length_nil]
      omega
  · have hexp : p.toNat = 0 := by omega
    rw [hexp, pow_zero, Nat.mul_one]
    split
    · have htake : Digits ((digits c).take ((digits c).length + p).toNat) := by
        refine ⟨?_, fun d hd => hdigits d (List.mem_of_mem_take hd)⟩
        rw [Ne, List.take_eq_nil_iff]
        exact not_or.2 ⟨by omega, hne⟩
      refine ⟨_, _, .trailing htake fun d hd => hdigits d (List.mem_of_mem_drop hd), ?_, ?_⟩
      · rw [List.take_append_drop, hvalue]
      · rw [List.length_drop]
        omega
    · have hpoint : -layout.fractionZeros < (digits c).length + p ∧ (digits c).length + p ≤ 0 := by
        omega
      have hzero : Digits ['0'] := ⟨List.cons_ne_nil _ _, List.forall_mem_singleton.2 rfl⟩
      rw [if_pos hpoint]
      generalize hk : (-((digits c).length + p)).toNat = k
      refine ⟨['0'], List.replicate k '0' ++ digits c,
        .trailing hzero (forall_isDigit_zeros_append k hdigits), ?_, ?_⟩
      · show digitsValue (List.replicate (k + 1) '0' ++ digits c) = c
        rw [digitsValue_zeros_append, hvalue]
      · rw [List.length_append, List.length_replicate]
        omega

/-- An exponent is written with its mark, its sign and its digits. -/
theorem optionalExponent_exponentText (e : ℤ) : OptionalExponent (exponentText e) e := by
  have hdigits : Digits (digits e.natAbs) := ⟨digits_ne_nil _, fun _ => digits_isDigit⟩
  unfold exponentText
  by_cases he : e < 0
  · have hwritten := OptionalExponent.present (.inl rfl) .minus hdigits
    have hvalue : signedInt true (digitsValue (digits e.natAbs)) = e := by
      rw [digitsValue_digits]
      show -(e.natAbs : ℤ) = e
      omega
    rw [hvalue] at hwritten
    rw [if_pos he]
    exact hwritten
  · have hwritten := OptionalExponent.present (.inl rfl) .plus hdigits
    have hvalue : signedInt false (digitsValue (digits e.natAbs)) = e := by
      rw [digitsValue_digits]
      show (e.natAbs : ℤ) = e
      omega
    rw [hvalue] at hwritten
    rw [if_neg he]
    exact hwritten

/-- Beyond the bounds of the layout the point stands behind the first digit. -/
theorem decimal_of_not_inFull (h : ¬ layout.InFull ((digits c).length + p)) :
    Decimal (layout.decimal c p) c p := by
  have hdigits : ∀ d ∈ digits c, d.isDigit = true := fun _ => digits_isDigit
  have hvalue := digitsValue_digits c
  have hexponent := optionalExponent_exponentText ((digits c).length + p - 1)
  have hlength : 0 < (digits c).length := List.length_pos_iff.2 (digits_ne_nil c)
  unfold Layout.InFull at h
  unfold Layout.decimal Layout.place
  simp only
  rw [if_neg (by omega), if_neg (by omega), if_neg (by omega)]
  generalize digits c = ds at hdigits hvalue hexponent hlength
  match ds with
  | [] => exact absurd hlength (lt_irrefl 0)
  | [d] =>
    have hwritten := Decimal.mk (.whole ⟨List.cons_ne_nil d [], hdigits⟩) hexponent
    rw [List.append_nil, hvalue] at hwritten
    have hexp : (([d].length : ℤ) + p - 1) - ([] : List Char).length = p := by
      simp
    rwa [hexp] at hwritten
  | d :: d' :: more =>
    obtain ⟨hd, hmore⟩ := List.forall_mem_cons.1 hdigits
    have hfirst : Digits [d] := ⟨List.cons_ne_nil d [], List.forall_mem_singleton.2 hd⟩
    have hwritten := Decimal.mk (.trailing hfirst hmore) hexponent
    have hall : digitsValue ([d] ++ d' :: more) = c := hvalue
    rw [hall] at hwritten
    have hexp : ((d :: d' :: more).length + p - 1) - ((d' :: more).length : ℤ) = p := by
      rw [List.length_cons]
      omega
    rwa [hexp] at hwritten

/-- **However a decimal is laid out**, it is a numeral for this decimal. -/
theorem exists_decimal :
    ∃ n q, Decimal (layout.decimal c p) n q ∧ (n : ℚ) * 10 ^ q = c * 10 ^ p ∧
      q.natAbs ≤ p.natAbs := by
  by_cases h : layout.InFull ((digits c).length + p)
  · obtain ⟨whole, fraction, hpointed, hvalue, hlength⟩ := pointed_decimal layout c p h
    have hwritten := Decimal.mk hpointed .absent
    rw [List.append_nil, hvalue, hlength] at hwritten
    refine ⟨_, _, hwritten, ?_, by omega⟩
    push_cast
    rw [mul_assoc, ← zpow_natCast, ← zpow_add₀ (by norm_num)]
    congr 2
    omega
  · exact ⟨c, p, decimal_of_not_inFull layout c p h, rfl, le_rfl⟩

end Layouts

/-! ### Doubles -/

/-- A decimal in the interval of a double denotes this double, under either sign. -/
theorem signed_ofDecimal (s : Sign) {m n : ℕ} {e q : ℤ} (hd : IsDouble m e)
    (hq : Near m e ((n : ℚ) * 10 ^ q)) (hexp : q.natAbs ≤ 2 ^ 11) :
    unpack (signed (isNegative s) (ofDecimal n q)) = .finite s m e hd.pos := by
  have hread := unpack_ofDecimal hd (hq.pos_of_isDouble hd) hq hexp
  cases s with
  | positive => exact hread
  | negative =>
    show unpack (-ofDecimal n q) = _
    rw [unpack_neg, hread]
    rfl

/-- A text under a sign begins with one. -/
theorem exists_withSign (negative : Bool) :
    ∃ sign, OptionalSign sign negative ∧ ∀ cs, withSign negative cs = sign ++ cs := by
  cases negative with
  | false => exact ⟨[], .absent, fun _ => rfl⟩
  | true => exact ⟨['-'], .minus, fun _ => rfl⟩

theorem chars_zero {x : Float} {s : Sign} (hx : unpack x = .zero s) : chars x = ['0'] := by
  unfold chars
  rw [read_eq, hx]
  rfl

theorem chars_finite {x : Float} {s : Sign} {m : ℕ} {e : ℤ} {h : 0 < m}
    (hx : unpack x = .finite s m e h) :
    chars x = withSign (isNegative s) (plain.decimal (shortest m e).1 (shortest m e).2) := by
  unfold chars
  rw [read_eq, hx]
  exact if_neg h.ne'

/-- **The text of a double is a numeral for this double**, apart from the sign of zero. -/
theorem spells_chars (x : Float) : ∃ n, Spells (chars x) n ∧ n.value = unsignZero x := by
  have hform := form_unpack x
  unfold unsignZero
  generalize hu : unpack x = u at hform
  cases hform with
  | notANumber =>
    have hword : InAnyCase "nan".toList "NaN".toList := (inAnyCase_iff (by decide)).2 (by decide)
    refine ⟨.notANumber, ?_, ?_⟩
    · unfold chars
      rw [read_eq, hu]
      exact .mk .absent (.notANumber hword)
    · apply eq_of_unpack
      rw [hu]
      rfl
  | infinity s =>
    have hword : InAnyCase "infinity".toList "Infinity".toList :=
      (inAnyCase_iff (by decide)).2 (by decide)
    obtain ⟨sign, hsign, htext⟩ := exists_withSign (isNegative s)
    refine ⟨.infinite (isNegative s), ?_, ?_⟩
    · unfold chars
      rw [read_eq, hu]
      simp only [Reading.ofUnpacked, htext]
      exact .mk hsign (.infinite (.inr hword))
    · apply eq_of_unpack
      rw [hu]
      cases s with
      | positive => rfl
      | negative => exact unpack_neg_infinity
  | zero s =>
    have hdigits : Digits ['0'] := ⟨List.cons_ne_nil _ _, List.forall_mem_singleton.2 rfl⟩
    refine ⟨.decimal false 0 0, ?_, ?_⟩
    · rw [chars_zero hu]
      exact .mk .absent (.integer hdigits)
    · apply eq_of_unpack
      rw [unpack_repack_zero]
      exact unpack_ofDecimal_zero
  | @finite s m e hpos hd =>
    obtain ⟨hnear, hexp⟩ := shortest_near hd
    obtain ⟨n, q, hdecimal, hvalue, hq⟩ :=
      exists_decimal plain (shortest m e).1 (shortest m e).2
    obtain ⟨sign, hsign, htext⟩ := exists_withSign (isNegative s)
    rw [← hvalue] at hnear
    refine ⟨.decimal (isNegative s) n q, ?_, ?_⟩
    · rw [chars_finite hu, htext]
      exact .mk hsign (.decimal hdecimal)
    · apply eq_of_unpack
      rw [hu]
      exact signed_ofDecimal s hd hnear (by omega)

/-- Doubles with the same text are the same, apart from the sign of zero. -/
theorem unsignZero_of_chars {x y : Float} (h : chars x = chars y) : unsignZero x = unsignZero y := by
  obtain ⟨n, hspelled, hvalue⟩ := spells_chars x
  obtain ⟨n', hspelled', hvalue'⟩ := spells_chars y
  rw [← h, ← numeral?_eq_some_iff] at hspelled'
  rw [← numeral?_eq_some_iff, hspelled'] at hspelled
  rw [← hvalue, ← hvalue', Option.some.inj hspelled]

end Framewise.Number
