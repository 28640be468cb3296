/-!
# Letter case

Names of media types, of header fields and of paths are compared without regard to the case of
their letters. Only the letters of ASCII have a case here; all other characters stay.
-/

namespace Framewise.Text

/-- A text with small letters. -/
def lower (s : String) : String :=
  String.ofList (s.toList.map Char.toLower)

/-- A text with capital letters. -/
def upper (s : String) : String :=
  String.ofList (s.toList.map Char.toUpper)

/-! ### Codes of letters -/

theorem toNat_toLower (c : Char) :
    c.toLower.toNat = if 65 ≤ c.toNat ∧ c.toNat ≤ 90 then c.toNat + 32 else c.toNat := by
  have range : c.val ≥ 'A'.val ∧ c.val ≤ 'Z'.val ↔ 65 ≤ c.toNat ∧ c.toNat ≤ 90 := Iff.rfl
  unfold Char.toLower
  split
  · next h =>
    have hc := range.1 h
    rw [if_pos hc]
    show (c.toNat + 32) % 2 ^ 32 = _
    omega
  · next h => rw [if_neg (mt range.2 h)]

theorem toNat_toUpper (c : Char) :
    c.toUpper.toNat = if 97 ≤ c.toNat ∧ c.toNat ≤ 122 then c.toNat - 32 else c.toNat := by
  have range : c.val ≥ 'a'.val ∧ c.val ≤ 'z'.val ↔ 97 ≤ c.toNat ∧ c.toNat ≤ 122 := Iff.rfl
  -- The difference of the two cases is negative, so the sum wraps around.
  have gap : ('A'.val - 'a'.val).toNat = 2 ^ 32 - 32 := by decide
  unfold Char.toUpper
  split
  · next h =>
    have hc := range.1 h
    have sum := UInt32.toNat_add c.val ('A'.val - 'a'.val)
    rw [gap, Char.toNat_val] at sum
    rw [if_pos hc, ← Char.toNat_val]
    refine Eq.trans sum ?_
    omega
  · next h => rw [if_neg (mt range.2 h)]

/-- Two characters have a small letter as their small form: the letter, and its capital. -/
theorem toLower_eq_iff {l c : Char} (hl : l.isLower = true) :
    c.toLower = l ↔ c = l ∨ c = l.toUpper := by
  have hbounds := Bool.and_eq_true_iff.1 hl
  have hrange : 97 ≤ l.toNat ∧ l.toNat ≤ 122 :=
    ⟨of_decide_eq_true hbounds.1, of_decide_eq_true hbounds.2⟩
  rw [← Char.toNat_inj, ← Char.toNat_inj, ← Char.toNat_inj, toNat_toLower, toNat_toUpper,
    if_pos hrange]
  split <;> omega

example : lower "Content-Type É" = "content-type É" ∧ upper "utf-8" = "UTF-8" := by decide

end Framewise.Text
