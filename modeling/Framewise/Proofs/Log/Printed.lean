import Framewise.Proofs.Log.Values
import Framewise.Proofs.Number.Places
import Framewise.Proofs.Table

/-!
# Printed numbers are read again

What a cell shows of a number is a value of a log, and a cell shows the same of this value. Integers,
the infinities and NaN are read again as they were. Other numbers are shown with six decimal places at
most, and what is read again are these.

* `parseNumber_text`: the text of a double is read as this double, apart from the sign of zero.
* `placed_shown`: a number with fraction digits is shown by way of a decimal with six places.
* `parseNumber_format`: the numbers that cells show, read and shown again.
-/

namespace Framewise

open Number Text
open Float.Model.UnpackedFloat

/-! ### Texts of doubles -/

namespace Number

theorem unsignZero_of_not_isInteger {x : Float} (h : isInteger x = false) : unsignZero x = x := by
  unfold unsignZero
  split
  · next s hx =>
    rw [isInteger_zero hx] at h
    cases h
  · rfl

/-- Zeros have one text. -/
theorem chars_unsignZero (x : Float) : chars (unsignZero x) = chars x := by
  unfold unsignZero
  split
  · next s hx => rw [chars_zero hx, chars_zero (unpack_repack_zero .positive)]
  · rfl

/-- Digits with a point hold no exponent mark. -/
theorem Pointed.plain {body whole fraction : List Char} (h : Pointed body whole fraction) :
    ∀ c ∈ body, c.isDigit = true ∨ c = '.' := by
  cases h with
  | whole digits => exact fun c hc => .inl (digits.2 c hc)
  | trailing digits hfraction =>
    refine List.forall_mem_append.2 ⟨fun c hc => .inl (digits.2 c hc), ?_⟩
    exact List.forall_mem_cons.2 ⟨.inr rfl, fun c hc => .inl (hfraction c hc)⟩
  | leading digits => exact List.forall_mem_cons.2 ⟨.inr rfl, fun c hc => .inl (digits.2 c hc)⟩

end Number

namespace Log

/-- **The text of a double is read as this double**, apart from the sign of zero. -/
theorem parseNumber_text (x : Float) : parseNumber (text x) = .ok (unsignZero x) := by
  obtain ⟨n, hspelled, hvalue⟩ := spells_chars x
  rw [← hvalue]
  apply parseNumber_of_spells
  rwa [toList_text, trim_of_blankFree (blankFree_chars x)]

/-! ### Cells -/

/-- The double whose text a cell shows. -/
def shown (x : Float) : Float :=
  if isInteger x || !x.isFinite then x else roundAt cellPlaces x

theorem format_eq (x : Float) : Cell.format (.number x) = text (shown x) := by
  show (if isInteger x || !x.isFinite then text x else text (roundAt cellPlaces x)) = _
  unfold shown
  split
  · rfl
  · rfl

theorem shown_of_whole {x : Float} (h : isInteger x = true ∨ x.isFinite = false) : shown x = x := by
  apply if_pos
  rwa [Bool.or_eq_true, Bool.not_eq_true']

theorem shown_of_fraction {x : Float} (hx : x.isFinite = true) (hfraction : isInteger x = false) :
    shown x = roundAt cellPlaces x := by
  apply if_neg
  rw [hx, hfraction]
  decide

theorem placed_shown {x : Float} (hx : x.isFinite = true) (hfraction : isInteger x = false) :
    Placed cellPlaces (shown x) := by
  rw [shown_of_fraction hx hfraction]
  exact placed_roundAt (by decide) hx hfraction

/-- What is shown is shown again as it is. A millionth lies between two powers of two. -/
theorem shown_shown (x : Float) : shown (shown x) = shown x := by
  by_cases hwhole : isInteger x = true ∨ x.isFinite = false
  · rw [shown_of_whole hwhole, shown_of_whole hwhole]
  · have hfraction : isInteger x = false := Bool.eq_false_iff.2 fun h => hwhole (.inl h)
    have hx : x.isFinite = true := by
      cases hfinite : x.isFinite with
      | true => rfl
      | false => exact absurd (.inr hfinite) hwhole
    have hplaced := placed_shown hx hfraction
    generalize shown x = w at hplaced
    by_cases hwhole' : isInteger w = true ∨ w.isFinite = false
    · exact shown_of_whole hwhole'
    · have hfraction' : isInteger w = false := Bool.eq_false_iff.2 fun h => hwhole' (.inl h)
      have hlow : (2 : ℚ) ^ (-20 : ℤ) < 10 ^ (-(cellPlaces : ℤ)) := by norm_num [cellPlaces]
      have hhigh : (10 : ℚ) ^ (-(cellPlaces : ℤ)) < 2 ^ ((-20 : ℤ) + 1) := by norm_num [cellPlaces]
      have hround := hplaced.roundAt_eq hlow hhigh (by decide) (by decide) hfraction'
      unfold shown
      split
      · rfl
      · exact hround

/-- Reading what is shown loses the sign of zero, and this changes nothing of what is shown. -/
theorem text_shown_unsignZero (x : Float) : text (shown (unsignZero x)) = text (shown x) := by
  by_cases hinteger : isInteger x = true
  · have hagree : isInteger (unsignZero x) = true := by
      rw [(agree_unsignZero x).isInteger_eq, hinteger]
    rw [shown_of_whole (.inl hagree), shown_of_whole (.inl hinteger), text, text, chars_unsignZero]
  · rw [unsignZero_of_not_isInteger (Bool.eq_false_iff.2 hinteger)]

/-- No text of a double is that of a zero with a sign. -/
theorem text_ne_signed_zero (x : Float) : text x ≠ "-0" := by
  intro heq
  have hread := parseNumber_text x
  have hzero : parseNumber "-0" = .ok (-0) := by decide +kernel
  rw [heq, hzero] at hread
  have hsame := (agree_unsignZero x).unsignZero_eq
  rw [← Except.ok.inj hread] at hsame
  have hdiffer : unsignZero (-0) ≠ -0 := by decide +kernel
  exact hdiffer hsame

/-- **Printed numbers are stable under reading.** What a cell shows of a double is always a value of a
log, and a cell shows the same of this value. For integers and for what is not finite the value is the
double itself, except that zero has no sign. For all other doubles the text is a sign and digits with
at most one point, so without an exponent, and with no more than six digits behind the point. It is
never a zero with a minus sign. -/
theorem parseNumber_format (x : Float) :
    ∃ y, parseNumber (Cell.format (.number x)) = .ok y ∧
      Cell.format (.number y) = Cell.format (.number x) ∧
      (isInteger x = true ∨ x.isFinite = false → y = unsignZero x) ∧
      (x.isFinite = true → isInteger x = false →
        (∃ sign negative body whole fraction, OptionalSign sign negative ∧
          Pointed body whole fraction ∧ fraction.length ≤ 6 ∧
          (Cell.format (.number x)).toList = sign ++ body) ∧
        ∀ c ∈ (Cell.format (.number x)).toList, c ≠ 'e' ∧ c ≠ 'E') ∧
      Cell.format (.number x) ≠ "-0" := by
  rw [format_eq]
  refine ⟨unsignZero (shown x), parseNumber_text _, ?_, ?_, ?_, text_ne_signed_zero _⟩
  · rw [format_eq, text_shown_unsignZero, shown_shown]
  · intro hwhole
    rw [shown_of_whole hwhole]
  · intro hx hfraction
    obtain ⟨sign, negative, body, whole, fraction, hsign, hpointed, hlength, htext⟩ :=
      (placed_shown hx hfraction).pointed_chars (by decide)
    rw [toList_text, htext]
    refine ⟨⟨sign, negative, body, whole, fraction, hsign, hpointed, hlength, rfl⟩, ?_⟩
    refine List.forall_mem_append.2 ⟨hsign.forall_mem (by decide) (by decide), ?_⟩
    intro c hc
    rcases hpointed.plain c hc with hdigit | rfl
    · constructor
      · rintro rfl
        exact absurd hdigit (by decide)
      · rintro rfl
        exact absurd hdigit (by decide)
    · decide

/-- Half a place is rounded away from zero, and what is less than half a place is zero without a
sign. -/
theorem parseNumber_format_half :
    (∃ y, parseNumber (Cell.format (.number (-123456.7890625))) = .ok y ∧
      Cell.format (.number y) = "-123456.789063") ∧
    (∃ y, parseNumber (Cell.format (.number (-1e-9))) = .ok y ∧ Cell.format (.number y) = "0") ∧
    parseNumber (Cell.format (.number (-1e300))) = .ok (-1e300) := by
  obtain ⟨y, hread, hshown, -⟩ := parseNumber_format (-123456.7890625)
  obtain ⟨z, hread', hshown', -⟩ := parseNumber_format (-1e-9)
  obtain ⟨w, hread'', -, hvalue, -⟩ := parseNumber_format (-1e300)
  refine ⟨⟨y, hread, hshown.trans (by decide +kernel)⟩,
    ⟨z, hread', hshown'.trans (by decide +kernel)⟩, ?_⟩
  rw [hread'', hvalue (.inl (by decide +kernel))]
  decide +kernel

end Log

end Framewise
