import Mathlib.Algebra.Ring.Nat
import Mathlib.Data.List.Basic
import Framewise.Number.Layout
import Framewise.Number.Numeral

/-!
# Digits

Runs of digits and the numbers that they denote. Zeros before them change nothing, and what begins
with no digit ends them.

* `digitsValue_digits`: the digits of a number denote it.
* `toList_natText`, `toList_text`: the texts of numbers, as characters.
* `leadingDigits_append`, `afterDigits_append`: digits and what follows them are told apart.
-/

namespace Framewise.Number

/-- A number is written with digits only. -/
theorem digits_isDigit {n : ℕ} {d : Char} (h : d ∈ digits n) : d.isDigit = true :=
  Nat.isDigit_of_mem_toDigits (by decide) (by decide) h

theorem digits_ne_nil (n : ℕ) : digits n ≠ [] := Nat.toDigits_ne_nil

@[simp] theorem toList_natText (n : ℕ) : (natText n).toList = digits n := String.toList_ofList

@[simp] theorem toList_text (x : Float) : (text x).toList = chars x := String.toList_ofList

/-- **The digits of a number denote it.** -/
theorem digitsValue_digits (n : ℕ) : digitsValue (digits n) = n := Nat.ofDigitChars_ten_toDigits

/-- Each zero after digits is a factor ten. -/
theorem digitsValue_append_zeros (ds : List Char) (k : ℕ) :
    digitsValue (ds ++ List.replicate k '0') = digitsValue ds * 10 ^ k := by
  unfold digitsValue
  rw [Nat.ofDigitChars_append, Nat.ofDigitChars_replicate_zero, Nat.mul_comm]

/-- Zeros before digits change nothing. -/
theorem digitsValue_zeros_append (k : ℕ) (ds : List Char) :
    digitsValue (List.replicate k '0' ++ ds) = digitsValue ds := by
  unfold digitsValue
  rw [Nat.ofDigitChars_append, Nat.ofDigitChars_replicate_zero, Nat.mul_zero]

theorem digitChar_ne_zero : ∀ n : Fin 10, 0 < n.val → Nat.digitChar n ≠ '0' := by decide

/-- The digits of a positive number have no zero before them. -/
theorem head?_digits {n : ℕ} (h : 0 < n) : (digits n).head? ≠ some '0' := by
  unfold digits
  induction n using Nat.strongRecOn with
  | ind n ih =>
    by_cases hsmall : n < 10
    · rw [Nat.toDigits_of_lt_base hsmall]
      intro heq
      exact digitChar_ne_zero ⟨n, hsmall⟩ h (Option.some.inj heq)
    · rw [Nat.toDigits_of_base_le (by decide) (Nat.not_lt.1 hsmall), List.head?_append_of_ne_nil _
        Nat.toDigits_ne_nil]
      exact ih (n / 10) (by omega) (by omega)

/-- What does not begin with a digit. -/
def EndsDigits (rest : List Char) : Prop := ∀ c ∈ rest.head?, c.isDigit = false

/-- What begins with no digit has no leading digits. -/
theorem leadingDigits_of_ends {rest : List Char} (h : EndsDigits rest) : leadingDigits rest = [] := by
  cases rest with
  | nil => rfl
  | cons c cs =>
    unfold leadingDigits
    rw [List.takeWhile_cons, h c rfl]
    rfl

theorem afterDigits_of_ends {rest : List Char} (h : EndsDigits rest) : afterDigits rest = rest := by
  cases rest with
  | nil => rfl
  | cons c cs =>
    unfold afterDigits
    rw [List.dropWhile_cons, h c rfl]
    rfl

/-- **A run of digits is read to its end**, and no further. -/
theorem leadingDigits_append {ds rest : List Char} (hds : ∀ d ∈ ds, d.isDigit = true)
    (h : EndsDigits rest) : leadingDigits (ds ++ rest) = ds := by
  unfold leadingDigits
  rw [List.takeWhile_append_of_pos hds]
  have hrest := leadingDigits_of_ends h
  unfold leadingDigits at hrest
  rw [hrest, List.append_nil]

/-- What follows a run of digits is left as it is. -/
theorem afterDigits_append {ds rest : List Char} (hds : ∀ d ∈ ds, d.isDigit = true)
    (h : EndsDigits rest) : afterDigits (ds ++ rest) = rest := by
  unfold afterDigits
  rw [List.dropWhile_append_of_pos hds]
  exact afterDigits_of_ends h

end Framewise.Number
