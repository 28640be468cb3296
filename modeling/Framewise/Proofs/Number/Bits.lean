import Mathlib
import Framewise.Number.Binary

/-!
# The bits of a double

The operations on doubles work on what the bits stand for, an unpacked form. It is the reading of
the double, except that zero has a form of its own.

* `read_eq`: reading a double is unpacking it.
* `pack_finite`: what a finite form packs to.
* `repack_unpack`: a double is what its unpacked form packs to.
* `unpack_repack_finite`: a positive significand at an exponent of a double, `IsDouble`, is not
  changed by packing it.
-/

namespace Framewise.Number

open Float.Model (UnpackedFloat Format)
open Float.Model.UnpackedFloat

/-- What a double stands for. -/
def unpack (x : Float) : UnpackedFloat := x.toModel.unpack

/-- The double that stands for an unpacked form. -/
def repack (u : UnpackedFloat) : Float := .ofModel (.pack u)

/-- The significands and exponents of the finite doubles other than zero. A significand is below
`2 ^ 52` only at the least exponent. -/
structure IsDouble (m : Nat) (e : Int) : Prop where
  pos : 0 < m
  lt : m < 2 ^ 53
  least : minExponent ≤ e
  most : e ≤ 971
  normal : m < 2 ^ 52 → e = minExponent

/-! ### Parts of the bits -/

abbrev Bits := BitVec (Format.numBits .binary64)

/-- The fraction is the lowest 52 bits. -/
theorem toNat_unpackMantissa (b : Bits) :
    (unpackMantissa b : BitVec 52).toNat = b.toNat % 2 ^ 52 := by
  simp [unpackMantissa, BitVec.extractLsb]

/-- The exponent is the 11 bits above the fraction. -/
theorem toNat_unpackExponent (b : Bits) :
    (unpackExponent b : BitVec 11).toNat = b.toNat / 2 ^ 52 % 2 ^ 11 := by
  simp [unpackExponent, BitVec.extractLsb, Nat.shiftRight_eq_div_pow]

/-- The sign is the highest bit. -/
theorem toNat_unpackSign (b : Bits) : (unpackSign b).toNat = b.toNat / 2 ^ 63 := by
  have hlt : b.toNat < 2 ^ 64 := b.isLt
  have hmod : (unpackSign b).toNat = b.toNat / 2 ^ 63 % 2 := by
    simp [unpackSign, BitVec.extractLsb, Nat.shiftRight_eq_div_pow]
  omega

theorem toNat_append {v w : Nat} (x : BitVec v) (y : BitVec w) :
    (x ++ y).toNat = x.toNat * 2 ^ w + y.toNat := by
  rw [BitVec.toNat_append, ← Nat.shiftLeft_add_eq_or_of_lt y.isLt, Nat.shiftLeft_eq]

/-- The number that the bits are, from their three parts. -/
theorem toNat_packComponents (s : Sign) (e : BitVec 11) (m : BitVec 52) :
    (packComponents Format.binary64 s e m).toNat =
      s.toBitVec.toNat * 2 ^ 63 + e.toNat * 2 ^ 52 + m.toNat := by
  unfold packComponents
  rw [toNat_append, toNat_append]
  show (_ * 2 ^ 11 + _) * 2 ^ 52 + _ = _
  omega

theorem toBitVec_ofBitVec (v : BitVec 1) : (Sign.ofBitVec v).toBitVec = v := by
  have hcases : v = 0#1 ∨ v = 1#1 := by
    have hlt := v.isLt
    rcases Nat.lt_or_ge v.toNat 1 with h | h
    · exact .inl (BitVec.eq_of_toNat_eq (by simp; omega))
    · exact .inr (BitVec.eq_of_toNat_eq (by simp; omega))
  rcases hcases with rfl | rfl <;> rfl

theorem ofBitVec_toBitVec (s : Sign) : Sign.ofBitVec s.toBitVec = s := by
  cases s <;> rfl

/-- Bits are their three parts. -/
theorem exists_parts (b : Bits) : ∃ s e m, b = packComponents .binary64 s e m := by
  have hlt : b.toNat < 2 ^ 64 := b.isLt
  refine ⟨Sign.ofBitVec (unpackSign b), unpackExponent b, unpackMantissa b, ?_⟩
  apply BitVec.eq_of_toNat_eq
  rw [toNat_packComponents, toBitVec_ofBitVec, toNat_unpackSign, toNat_unpackExponent,
    toNat_unpackMantissa]
  omega

theorem unpackSign_packComponents (s : Sign) (e : BitVec 11) (m : BitVec 52) :
    unpackSign (packComponents Format.binary64 s e m) = s.toBitVec := by
  have he : e.toNat < 2 ^ 11 := e.isLt
  have hm : m.toNat < 2 ^ 52 := m.isLt
  apply BitVec.eq_of_toNat_eq
  rw [toNat_unpackSign, toNat_packComponents]
  omega

/-- The greatest exponent, which is reserved, as a number. -/
theorem eq_maxExponent_iff (e : BitVec 11) : e = -1#11 ↔ e.toNat = 2 ^ 11 - 1 := by
  rw [← BitVec.toNat_inj]
  rfl

theorem eq_zero_iff_toNat {w : Nat} (b : BitVec w) : b = 0#w ↔ b.toNat = 0 := by
  rw [← BitVec.toNat_inj]
  rfl

/-! ### Logarithms -/

theorem log2_le {n k : Nat} (hpos : 0 < n) (h : n < 2 ^ (k + 1)) : n.log2 ≤ k :=
  Nat.le_of_lt_succ ((Nat.log2_lt (Nat.ne_of_gt hpos)).2 h)

theorem log2_eq {n k : Nat} (hlow : 2 ^ k ≤ n) (hhigh : n < 2 ^ (k + 1)) : n.log2 = k := by
  have hpos : 0 < n := Nat.lt_of_lt_of_le (Nat.two_pow_pos k) hlow
  apply Nat.le_antisymm
  · exact log2_le hpos hhigh
  · exact (Nat.le_log2 (Nat.ne_of_gt hpos)).2 hlow

/-! ### Packing -/

/-- What a finite form packs to: infinite if its exponent is too large, and at the least exponent if
its significand is short. -/
theorem pack_finite (s : Sign) {m : Nat} {e : Int} (h : 0 < m) :
    pack .binary64 (.finite s m e h) =
      if 2 ^ 11 ≤ (e + 1075).toNat + 1 then packedInfinity .binary64 s
      else if m.log2 = 52 then
        packComponents .binary64 s (BitVec.ofNat 11 (e + 1075).toNat) (BitVec.ofNat 52 m)
      else packComponents .binary64 s 0#11 (BitVec.ofNat 52 m) := by
  have hbiased : e + 1075 = e + (1023 : Nat) + (52 : Nat) := by omega
  have hlog : (m.log2 = 52) = (m.log2 + 1 = 53) := by simp
  rw [hbiased]
  simp only [hlog]
  rfl

/-- A significand with its implicit bit is packed with its exponent, and without this bit. -/
theorem pack_finite_normal (s : Sign) {m : Nat} {e : Int} (h : 0 < m) (hd : IsDouble m e)
    (hm : 2 ^ 52 ≤ m) :
    pack .binary64 (.finite s m e h) =
      packComponents .binary64 s (BitVec.ofNat 11 (e + 1075).toNat) (BitVec.ofNat 52 m) := by
  have hmost := hd.most
  have hfits : ¬ 2 ^ 11 ≤ (e + 1075).toNat + 1 := by omega
  rw [pack_finite, if_neg hfits, if_pos (log2_eq hm hd.lt)]

/-- A short significand is packed at the least exponent, whatever its own is. -/
theorem pack_finite_subnormal (s : Sign) {m : Nat} {e : Int} (h : 0 < m) (hm : m < 2 ^ 52)
    (he : e ≤ 971) :
    pack .binary64 (.finite s m e h) = packComponents .binary64 s 0#11 (BitVec.ofNat 52 m) := by
  have hfits : ¬ 2 ^ 11 ≤ (e + 1075).toNat + 1 := by omega
  have hlog : m.log2 < 52 := (Nat.log2_lt (by omega)).2 hm
  rw [pack_finite, if_neg hfits, if_neg (Nat.ne_of_lt hlog)]

theorem toNat_implicit (m : BitVec 52) : (1#1 ++ m).toNat = 2 ^ 52 + m.toNat := by
  rw [toNat_append]
  simp

/-- What three parts unpack to. The least and the greatest exponent are reserved. -/
theorem unpack_packComponents (s : Sign) (e : BitVec 11) (m : BitVec 52) :
    Float.Model.UnpackedFloat.unpack .binary64 (packComponents .binary64 s e m) =
      if e = -1#11 then if m = 0#52 then .infinity s else .notANumber
      else if e = 0#11 then
        if h : m = 0#52 then .zero s
        else .finite s m.toNat ((e.toNat : Int) - 1075 + 1) (by
          simpa [BitVec.toNat_pos, BitVec.pos_iff_ne_zero] using h)
      else .finite s (1#1 ++ m).toNat ((e.toNat : Int) - 1075)
        (by rw [toNat_implicit]; omega) := by
  unfold Float.Model.UnpackedFloat.unpack
  simp only [unpackExponent_packComponents, unpackMantissa_packComponents,
    unpackSign_packComponents, ofBitVec_toBitVec]
  rfl

theorem unpack_repack (u : UnpackedFloat) :
    unpack (repack u) = Float.Model.UnpackedFloat.unpack .binary64 (pack .binary64 u) := rfl

/-- **A finite form of a double is kept by packing.** -/
theorem unpack_repack_finite (s : Sign) {m : Nat} {e : Int} (h : 0 < m) (hd : IsDouble m e) :
    unpack (repack (.finite s m e h)) = .finite s m e h := by
  have hleast : -1074 ≤ e := hd.least
  have hmost := hd.most
  have hlt := hd.lt
  rw [unpack_repack]
  rcases Nat.lt_or_ge m (2 ^ 52) with hm | hm
  · obtain rfl := hd.normal hm
    have htoNat : (BitVec.ofNat 52 m).toNat = m := by
      rw [BitVec.toNat_ofNat, Nat.mod_eq_of_lt hm]
    have hne : ¬ BitVec.ofNat 52 m = 0#52 := by
      rw [eq_zero_iff_toNat, htoNat]
      omega
    rw [pack_finite_subnormal s h hm (by decide), unpack_packComponents, if_neg (by decide), if_pos rfl,
      dif_neg hne]
    simp only [htoNat]
    rfl
  · have hbiased : (BitVec.ofNat 11 (e + 1075).toNat).toNat = (e + 1075).toNat := by
      rw [BitVec.toNat_ofNat, Nat.mod_eq_of_lt (by omega)]
    have hnotMax : ¬ BitVec.ofNat 11 (e + 1075).toNat = -1#11 := by
      rw [eq_maxExponent_iff, hbiased]
      omega
    have hnotMin : ¬ BitVec.ofNat 11 (e + 1075).toNat = 0#11 := by
      rw [eq_zero_iff_toNat, hbiased]
      omega
    have hmantissa : (1#1 ++ BitVec.ofNat 52 m).toNat = m := by
      rw [toNat_implicit, BitVec.toNat_ofNat]
      omega
    have hexponent : ((e + 1075).toNat : Int) - 1075 = e := by omega
    rw [pack_finite_normal s h hd hm, unpack_packComponents, if_neg hnotMax, if_neg hnotMin]
    simp only [hbiased, hmantissa, hexponent]

theorem unpack_repack_zero (s : Sign) : unpack (repack (.zero s)) = .zero s := by
  rw [unpack_repack, pack, packedZero]
  rw [show (0 : BitVec 11) = 0#11 from rfl, show (0 : BitVec 52) = 0#52 from rfl,
    unpack_packComponents, if_neg (by decide), if_pos rfl, dif_pos rfl]

theorem unpack_repack_infinity (s : Sign) : unpack (repack (.infinity s)) = .infinity s := by
  rw [unpack_repack, pack, packedInfinity]
  rw [show (0 : BitVec 52) = 0#52 from rfl, unpack_packComponents, if_pos rfl, if_pos rfl]

theorem unpack_repack_notANumber : unpack (repack .notANumber) = .notANumber := by
  rw [unpack_repack, pack, packedNaN]
  rw [unpack_packComponents, if_pos rfl, if_neg (by decide)]

/-! ### Unpacking -/

/-- The forms of doubles. -/
inductive Form : UnpackedFloat → Prop
  | notANumber : Form .notANumber
  | infinity (s : Sign) : Form (.infinity s)
  | zero (s : Sign) : Form (.zero s)
  | finite (s : Sign) {m : Nat} {e : Int} (h : 0 < m) (hd : IsDouble m e) : Form (.finite s m e h)

/-- **The form of a double is kept by packing.** -/
theorem Form.unpack_repack {u : UnpackedFloat} (h : Form u) : unpack (repack u) = u := by
  cases h with
  | notANumber => exact unpack_repack_notANumber
  | infinity s => exact unpack_repack_infinity s
  | zero s => exact unpack_repack_zero s
  | finite s h hd => exact unpack_repack_finite s h hd

/-- A fraction at the least exponent has the form of a double. -/
theorem form_and_pack_subnormal (s : Sign) (m : BitVec 52) (h : 0 < m.toNat) :
    Form (.finite s m.toNat minExponent h) ∧
      pack .binary64 (.finite s m.toNat minExponent h) = packComponents .binary64 s 0#11 m := by
  have hm : m.toNat < 2 ^ 52 := m.isLt
  refine ⟨.finite s h ⟨h, by omega, Int.le_refl _, by decide, fun _ => rfl⟩, ?_⟩
  rw [pack_finite_subnormal s h hm (by decide), BitVec.ofNat_toNat, BitVec.setWidth_eq]

/-- A fraction with its implicit bit, at an exponent that is not reserved, has the form of a
double. -/
theorem form_and_pack_normal (s : Sign) {e : BitVec 11} (m : BitVec 52) (hmax : e ≠ -1#11)
    (hmin : e ≠ 0#11) (h : 0 < (1#1 ++ m).toNat) :
    Form (.finite s (1#1 ++ m).toNat ((e.toNat : Int) - 1075) h) ∧
      pack .binary64 (.finite s (1#1 ++ m).toNat ((e.toNat : Int) - 1075) h) =
        packComponents .binary64 s e m := by
  have he : e.toNat < 2 ^ 11 := e.isLt
  have hm : m.toNat < 2 ^ 52 := m.isLt
  rw [Ne, eq_maxExponent_iff] at hmax
  rw [Ne, eq_zero_iff_toNat] at hmin
  have hd : IsDouble (1#1 ++ m).toNat ((e.toNat : Int) - 1075) := by
    rw [toNat_implicit]
    refine ⟨by omega, by omega, ?_, by omega, by omega⟩
    show -1074 ≤ _
    omega
  refine ⟨.finite s h hd, ?_⟩
  rw [pack_finite_normal s h hd (by rw [toNat_implicit]; omega)]
  congr 1
  · apply BitVec.eq_of_toNat_eq
    rw [BitVec.toNat_ofNat]
    omega
  · apply BitVec.eq_of_toNat_eq
    rw [BitVec.toNat_ofNat, toNat_implicit]
    omega

/-- Valid bits have the form of a double, and packing gives them back. -/
theorem form_and_pack (s : Sign) (e : BitVec 11) (m : BitVec 52)
    (hvalid : Format.Valid .binary64 (packComponents .binary64 s e m)) :
    Form (Float.Model.UnpackedFloat.unpack .binary64 (packComponents .binary64 s e m)) ∧
    pack .binary64 (Float.Model.UnpackedFloat.unpack .binary64 (packComponents .binary64 s e m)) =
      packComponents .binary64 s e m := by
  rw [unpack_packComponents]
  by_cases hmax : e = -1#11
  · rw [if_pos hmax]
    by_cases hzero : m = 0#52
    · rw [if_pos hzero]
      refine ⟨.infinity s, ?_⟩
      rw [hmax, hzero]
      rfl
    · rw [if_neg hzero]
      refine ⟨.notANumber, (hvalid.eq_packedNaN ?_ ?_).symm⟩
      · rw [unpackExponent_packComponents]
        exact hmax
      · rw [unpackMantissa_packComponents]
        exact hzero
  · rw [if_neg hmax]
    by_cases hmin : e = 0#11
    · rw [if_pos hmin]
      subst hmin
      by_cases hzero : m = 0#52
      · rw [dif_pos hzero, hzero]
        exact ⟨.zero s, rfl⟩
      · rw [dif_neg hzero]
        exact form_and_pack_subnormal s m _
    · rw [if_neg hmin]
      exact form_and_pack_normal s m hmax hmin _

/-- What a double stands for has the form of a double. -/
theorem form_unpack (x : Float) : Form (unpack x) := by
  obtain ⟨⟨bits, hvalid⟩⟩ := x
  obtain ⟨s, e, m, hparts⟩ := exists_parts bits.toBitVec
  rw [hparts] at hvalid
  have h := (form_and_pack s e m hvalid).1
  rw [← hparts] at h
  exact h

/-- **A double is what its unpacked form packs to.** -/
theorem repack_unpack (x : Float) : repack (unpack x) = x := by
  obtain ⟨⟨bits, hvalid⟩⟩ := x
  obtain ⟨s, e, m, hparts⟩ := exists_parts bits.toBitVec
  have hpack : pack .binary64 (Float.Model.UnpackedFloat.unpack .binary64 bits.toBitVec) =
      bits.toBitVec := by
    have hvalid' := hvalid
    rw [hparts] at hvalid' ⊢
    exact (form_and_pack s e m hvalid').2
  simp only [repack, unpack, Float.Model.unpack, Float.Model.pack, hpack]

/-- Doubles that unpack to the same are the same. -/
theorem eq_of_unpack {x y : Float} (h : unpack x = unpack y) : x = y := by
  rw [← repack_unpack x, h, repack_unpack y]

theorem isNaN_of_isFinite {x : Float} (h : x.isFinite = true) : x.isNaN = false := by
  have hfinite : (unpack x).isFinite = true := h
  show (unpack x).isNaN = false
  cases hform : unpack x with
  | notANumber =>
    rw [hform] at hfinite
    cases hfinite
  | infinity s | zero s | finite s m e hm => rfl

/-! ### Negation -/

theorem Form.neg {u : UnpackedFloat} (h : Form u) : Form u.neg := by
  cases h with
  | notANumber => exact .notANumber
  | infinity s => exact .infinity _
  | zero s => exact .zero _
  | finite s h hd => exact .finite _ h hd

theorem unpack_neg (x : Float) : unpack (-x) = (unpack x).neg := by
  show unpack (repack (unpack x).neg) = _
  exact (form_unpack x).neg.unpack_repack

theorem apply_neg (s : Sign) (m : Nat) : (-s).apply m = -s.apply m := by
  cases s with
  | negative => exact (neg_neg (m : Int)).symm
  | positive => rfl

/-- A difference of forms is the sum with the second one negated. -/
theorem sub_eq_add_negated (u v : UnpackedFloat) :
    sub .binary64 u v = add .binary64 u v.neg := by
  cases u with
  | notANumber => cases v <;> rfl
  | infinity s => cases v <;> rfl
  | zero s => cases v <;> rfl
  | finite s m e h =>
    cases v with
    | notANumber | infinity t | zero t => rfl
    | finite t n f h' =>
      show normalize _ (s.apply _ - t.apply _) _ _ = normalize _ (s.apply _ + (-t).apply _) _ _
      rw [apply_neg, ← Int.sub_eq_add_neg]

/-! ### Reading -/

/-- Whether a sign is the negative one. -/
def isNegative : Sign → Bool
  | .negative => true
  | .positive => false

/-- The reading of an unpacked form. -/
def Reading.ofUnpacked : UnpackedFloat → Reading
  | .notANumber => .notANumber
  | .infinity s => .infinite (isNegative s)
  | .zero s => .finite (isNegative s) 0 minExponent
  | .finite s m e _ => .finite (isNegative s) m e

theorem le_toNat_packComponents_iff (s : Sign) (e : BitVec 11) (m : BitVec 52) :
    decide (2 ^ 63 ≤ (packComponents .binary64 s e m).toNat) = isNegative s := by
  have he : e.toNat < 2 ^ 11 := e.isLt
  have hm : m.toNat < 2 ^ 52 := m.isLt
  rw [toNat_packComponents]
  cases s with
  | negative =>
    rw [isNegative, decide_eq_true_eq, show Sign.negative.toBitVec.toNat = 1 from rfl]
    omega
  | positive =>
    rw [isNegative, decide_eq_false_iff_not, show Sign.positive.toBitVec.toNat = 0 from rfl]
    omega

/-- **Reading a double is unpacking it.** -/
theorem read_eq (x : Float) : read x = .ofUnpacked (unpack x) := by
  obtain ⟨⟨bits, hvalid⟩⟩ := x
  obtain ⟨s, e, m, hparts⟩ := exists_parts bits.toBitVec
  have he : e.toNat < 2 ^ 11 := e.isLt
  have hm : m.toNat < 2 ^ 52 := m.isLt
  have hbits : bits.toNat = s.toBitVec.toNat * 2 ^ 63 + e.toNat * 2 ^ 52 + m.toNat := by
    rw [← toNat_packComponents, ← hparts]
    rfl
  have hsign : decide (2 ^ 63 ≤ bits.toNat) = isNegative s := by
    rw [← le_toNat_packComponents_iff s e m, ← hparts]
    rfl
  have hsmall : s.toBitVec.toNat < 2 := s.toBitVec.isLt
  have hbiased : bits.toNat / 2 ^ 52 % 2 ^ 11 = e.toNat := by omega
  have hfraction : bits.toNat % 2 ^ 52 = m.toNat := by omega
  have hunpack : unpack (Float.ofModel ⟨bits, hvalid⟩) =
      Float.Model.UnpackedFloat.unpack .binary64 (packComponents .binary64 s e m) := by
    rw [← hparts]
    rfl
  have hread : read (Float.ofModel ⟨bits, hvalid⟩) =
      if e.toNat = 2 ^ 11 - 1 then
        if m.toNat = 0 then .infinite (isNegative s) else .notANumber
      else if e.toNat = 0 then .finite (isNegative s) m.toNat minExponent
      else .finite (isNegative s) (2 ^ 52 + m.toNat) ((e.toNat : Int) - 1 + minExponent) := by
    rw [← hsign, ← hbiased, ← hfraction]
    rfl
  rw [hread, hunpack, unpack_packComponents]
  simp only [eq_maxExponent_iff, eq_zero_iff_toNat]
  split
  · split
    · rfl
    · rfl
  · split
    · next h =>
      split
      · next h' =>
        rw [h']
        rfl
      · rw [h]
        rfl
    · simp only [Reading.ofUnpacked, toNat_implicit]
      congr 1
      show _ + -1074 = _
      omega

end Framewise.Number
