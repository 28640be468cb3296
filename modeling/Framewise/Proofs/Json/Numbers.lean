import Framewise.Json.Parser
import Framewise.Proofs.Number.Digits
import Framewise.Proofs.Number.Shortest
import Framewise.Proofs.Number.Zero

/-!
# Numbers in JSON text

The text of a double is read back as this double, whatever follows that cannot be a part of it.
Only the sign of zero is lost.

* `magnitude?_decimal`: each way to lay out a decimal is read as this decimal.
* `number?_chars`: the text of a finite double is read as the double.
-/

namespace Framewise.Json

open Number

/-! ### Parts of a number -/

/-- What does not go on with a number. -/
def EndsNumber (rest : List Char) : Prop :=
  ∀ c ∈ rest.head?, c.isDigit = false ∧ c ≠ '.' ∧ c ≠ 'e' ∧ c ≠ 'E'

theorem EndsNumber.endsDigits {rest : List Char} (h : EndsNumber rest) : EndsDigits rest :=
  fun c hc => (h c hc).1

theorem exponent?_of_ends {rest : List Char} (h : EndsNumber rest) :
    exponent? rest = some (0, rest) := by
  cases rest with
  | nil => rfl
  | cons c cs =>
    obtain ⟨-, -, he, hE⟩ := h c rfl
    have hmark : ¬ (c = 'e' ∨ c = 'E') := not_or.2 ⟨he, hE⟩
    unfold exponent?
    simp only [hmark, if_false]

/-- An exponent is read as it is written, with its sign. -/
theorem exponent?_exponentText (e : ℤ) {rest : List Char} (h : EndsNumber rest) :
    exponent? (exponentText e ++ rest) = some (e, rest) := by
  have hdigits : ∀ negative : Bool, (if leadingDigits (digits e.natAbs ++ rest) = [] then none
      else some (signedInt negative (digitsValue (leadingDigits (digits e.natAbs ++ rest))),
        afterDigits (digits e.natAbs ++ rest))) = some (signedInt negative e.natAbs, rest) := by
    intro negative
    rw [leadingDigits_append (fun _ => digits_isDigit) h.endsDigits,
      afterDigits_append (fun _ => digits_isDigit) h.endsDigits, if_neg (digits_ne_nil _),
      digitsValue_digits]
  unfold exponentText
  by_cases he : e < 0
  · rw [if_pos he]
    refine (hdigits true).trans ?_
    rw [signedInt, if_pos rfl, show -(e.natAbs : ℤ) = e by omega]
  · rw [if_neg he]
    refine (hdigits false).trans ?_
    rw [signedInt, if_neg Bool.false_ne_true, show (e.natAbs : ℤ) = e by omega]

theorem fraction?_of_ends {rest : List Char} (h : ∀ c ∈ rest.head?, c ≠ '.') :
    fraction? rest = some ([], rest) := by
  unfold fraction?
  split
  · exact absurd rfl (h '.' rfl)
  · rfl

/-- The digits after a point are the fraction. -/
theorem fraction?_point {ds rest : List Char} (hne : ds ≠ []) (hds : ∀ d ∈ ds, d.isDigit = true)
    (h : EndsDigits rest) : fraction? ('.' :: (ds ++ rest)) = some (ds, rest) := by
  unfold fraction?
  simp only [leadingDigits_append hds h, afterDigits_append hds h]
  rw [if_neg hne]

/-- The whole parts that numbers are read with. -/
def IsWhole (ws : List Char) : Prop :=
  ws = ['0'] ∨ ws ≠ [] ∧ (∀ d ∈ ws, d.isDigit = true) ∧ ws.head? ≠ some '0'

/-- The whole part that a number is read with. -/
def wholeDigits (cs : List Char) : List Char :=
  match cs with
  | '0' :: _ => ['0']
  | _ => leadingDigits cs

theorem magnitude?_eq (cs : List Char) : magnitude? cs =
    if wholeDigits cs = [] then none
    else
      (fraction? (cs.drop (wholeDigits cs).length)).bind fun (ds, rest) =>
      (exponent? rest).map fun (e, rest) =>
      (ofDecimal (digitsValue (wholeDigits cs ++ ds)) (e - ds.length), rest) := rfl

/-- **A number is read from its parts.** -/
theorem magnitude?_parts {ws ds tail rest : List Char} {end' : List Char} {e : ℤ}
    (hws : IsWhole ws) (hends : EndsDigits tail) (hfraction : fraction? tail = some (ds, end'))
    (hexponent : exponent? end' = some (e, rest)) :
    magnitude? (ws ++ tail) = some (ofDecimal (digitsValue (ws ++ ds)) (e - ds.length), rest) := by
  have hwhole : wholeDigits (ws ++ tail) = ws := by
    rcases hws with rfl | ⟨hne, hdigits, hhead⟩
    · rfl
    · unfold wholeDigits
      split
      · next heq =>
        cases ws with
        | nil => exact absurd rfl hne
        | cons w ws =>
          obtain ⟨rfl, -⟩ := List.cons.inj heq
          exact absurd rfl hhead
      · exact leadingDigits_append hdigits hends
  have hne : ws ≠ [] := by
    rcases hws with rfl | ⟨hne, -, -⟩
    · exact List.cons_ne_nil _ _
    · exact hne
  rw [magnitude?_eq, hwhole, if_neg hne, List.drop_left, hfraction]
  show (exponent? end').map _ = _
  rw [hexponent]
  rfl

/-! ### Layouts -/

theorem isWhole_append {ws zs : List Char} (hne : ws ≠ []) (hhead : ws.head? ≠ some '0')
    (hws : ∀ d ∈ ws, d.isDigit = true) (hzs : ∀ d ∈ zs, d.isDigit = true) : IsWhole (ws ++ zs) := by
  refine .inr ⟨List.append_ne_nil_of_left_ne_nil hne zs, ?_, ?_⟩
  · intro d hd
    rcases List.mem_append.1 hd with hd | hd
    · exact hws d hd
    · exact hzs d hd
  · rw [List.head?_append_of_ne_nil _ hne]
    exact hhead

/-- Digits with the point after the first. -/
def pointed : List Char → List Char
  | [] => []
  | [d] => [d]
  | d :: more => d :: '.' :: more

section Layouts

variable {c : ℕ} {rest : List Char} (hc : 0 < c) (hrest : EndsNumber rest)

include hc hrest

/-- Digits with zeros after them are read as an integer. -/
theorem magnitude?_integer (k : ℕ) :
    magnitude? (digits c ++ List.replicate k '0' ++ rest) =
      some (ofDecimal (c * 10 ^ k) 0, rest) := by
  have hwhole : IsWhole (digits c ++ List.replicate k '0') := by
    refine isWhole_append (digits_ne_nil c) (head?_digits hc) (fun _ => digits_isDigit) ?_
    intro d hd
    rw [List.eq_of_mem_replicate hd]
    rfl
  rw [magnitude?_parts hwhole hrest.endsDigits (fraction?_of_ends fun d hd => (hrest d hd).2.1)
    (exponent?_of_ends hrest), List.append_nil, digitsValue_append_zeros, digitsValue_digits]
  rfl

/-- Digits with the point among them are read with an exponent below zero. -/
theorem magnitude?_inside {k : ℕ} (hk : 0 < k) (hlt : k < (digits c).length) :
    magnitude? ((digits c).take k ++ '.' :: (digits c).drop k ++ rest) =
      some (ofDecimal c ((k : ℤ) - (digits c).length), rest) := by
  have htake : ∀ d ∈ (digits c).take k, d.isDigit = true :=
    fun d hd => digits_isDigit (List.mem_of_mem_take hd)
  have hdrop : ∀ d ∈ (digits c).drop k, d.isDigit = true :=
    fun d hd => digits_isDigit (List.mem_of_mem_drop hd)
  have hne : (digits c).drop k ≠ [] := by
    intro h
    have hlen := congrArg List.length h
    rw [List.length_drop, List.length_nil] at hlen
    omega
  have hwhole : IsWhole ((digits c).take k) := by
    refine .inr ⟨?_, htake, ?_⟩
    · intro h
      have hlen := congrArg List.length h
      rw [List.length_take, List.length_nil] at hlen
      omega
    · rw [List.head?_take, if_neg hk.ne']
      exact head?_digits hc
  rw [List.append_assoc, List.cons_append, magnitude?_parts hwhole ?_
    (fraction?_point hne hdrop hrest.endsDigits) (exponent?_of_ends hrest), List.take_append_drop,
    digitsValue_digits, List.length_drop]
  · congr 3
    omega
  · rintro d ⟨⟩
    rfl

omit hc in
/-- Digits with the point and zeros before them are read with an exponent below zero as well. -/
theorem magnitude?_zeros (k : ℕ) :
    magnitude? ('0' :: '.' :: List.replicate k '0' ++ digits c ++ rest) =
      some (ofDecimal c (-(k : ℤ) - (digits c).length), rest) := by
  have hdigits : ∀ d ∈ List.replicate k '0' ++ digits c, d.isDigit = true := by
    intro d hd
    rcases List.mem_append.1 hd with hd | hd
    · rw [List.eq_of_mem_replicate hd]
      rfl
    · exact digits_isDigit hd
  have htext : '0' :: '.' :: List.replicate k '0' ++ digits c ++ rest =
      ['0'] ++ '.' :: ((List.replicate k '0' ++ digits c) ++ rest) := by
    rw [List.cons_append, List.cons_append]
    rfl
  have hvalue : digitsValue (['0'] ++ (List.replicate k '0' ++ digits c)) = c := by
    rw [← List.append_assoc]
    show digitsValue (List.replicate (k + 1) '0' ++ digits c) = c
    rw [digitsValue_zeros_append, digitsValue_digits]
  rw [htext, magnitude?_parts (.inl rfl) ?_ (fraction?_point ?_ hdigits hrest.endsDigits)
    (exponent?_of_ends hrest), hvalue, List.length_append, List.length_replicate]
  · congr 3
    push_cast
    omega
  · rintro d ⟨⟩
    rfl
  · exact List.append_ne_nil_of_right_ne_nil _ (digits_ne_nil c)

/-- Digits with the point after the first are read with the exponent that follows them. -/
theorem magnitude?_scientific (e : ℤ) :
    magnitude? (pointed (digits c) ++ exponentText e ++ rest) =
      some (ofDecimal c (e + 1 - (digits c).length), rest) := by
  have hexponent := exponent?_exponentText e hrest
  have hends : EndsDigits (exponentText e ++ rest) := by
    rintro d ⟨⟩
    rfl
  have hvalue := digitsValue_digits c
  have hdigits : ∀ d ∈ digits c, d.isDigit = true := fun _ => digits_isDigit
  have hhead := head?_digits hc
  have hnil := digits_ne_nil c
  rw [List.append_assoc]
  generalize digits c = cs at hvalue hdigits hhead hnil
  cases cs with
  | nil => exact absurd rfl hnil
  | cons d more =>
    have hwhole : IsWhole [d] := by
      refine .inr ⟨List.cons_ne_nil _ _, ?_, hhead⟩
      intro d' hd'
      rw [List.mem_singleton.1 hd']
      exact hdigits d List.mem_cons_self
    cases more with
    | nil =>
      show magnitude? ([d] ++ (exponentText e ++ rest)) = _
      rw [magnitude?_parts hwhole hends (fraction?_of_ends ?_) hexponent, List.append_nil, hvalue]
      · congr 3
        simp
      · rintro d' ⟨⟩
        decide
    | cons d' more =>
      have hmore : ∀ d ∈ d' :: more, d.isDigit = true :=
        fun _ hd => hdigits _ (List.mem_cons_of_mem _ hd)
      show magnitude? ([d] ++ '.' :: ((d' :: more) ++ (exponentText e ++ rest))) = _
      rw [magnitude?_parts hwhole ?_ (fraction?_point (List.cons_ne_nil _ _) hmore hends) hexponent,
        List.singleton_append, hvalue]
      · congr 3
        simp only [List.length_cons]
        omega
      · rintro d'' ⟨⟩
        rfl

/-- **A decimal is read however it is laid out.** -/
theorem magnitude?_decimal (layout : Layout) (p : ℤ) :
    magnitude? (layout.decimal c p ++ rest) = some (ofDecimal c p, rest) ∨
    0 ≤ p ∧ magnitude? (layout.decimal c p ++ rest) = some (ofDecimal (c * 10 ^ p.toNat) 0, rest) := by
  have hlen : 0 < (digits c).length := List.length_pos_iff.2 (digits_ne_nil c)
  unfold Layout.decimal Layout.place
  simp only
  split
  · right
    refine ⟨by omega, ?_⟩
    rw [magnitude?_integer hc hrest]
    congr 5
    omega
  · left
    split
    · rw [magnitude?_inside hc hrest (by omega) (by omega)]
      congr 3
      omega
    · split
      · rw [magnitude?_zeros hrest]
        congr 3
        omega
      · show magnitude? (pointed (digits c) ++ exponentText _ ++ rest) = _
        rw [magnitude?_scientific hc hrest]
        congr 3
        omega

end Layouts

/-! ### Doubles -/

/-- **The shortest decimal of a positive double is read as this double.** -/
theorem magnitude?_shortest {m : ℕ} {e : ℤ} (hd : IsDouble m e) {rest : List Char}
    (hrest : EndsNumber rest) :
    magnitude? (plain.decimal (shortest m e).1 (shortest m e).2 ++ rest) =
      some (repack (.finite .positive m e hd.pos), rest) := by
  obtain ⟨hnear, hp⟩ := shortest_near hd
  generalize (shortest m e).1 = c, (shortest m e).2 = p at hnear hp
  have hc := hnear.pos_of_isDouble hd
  rcases magnitude?_decimal hc hrest plain p with h | ⟨hp0, h⟩
  · rw [h]
    congr 2
    apply eq_of_unpack
    rw [unpack_ofDecimal hd hc hnear (by omega), unpack_repack_finite _ _ hd]
  · have hvalue : ((c * 10 ^ p.toNat : ℕ) : ℚ) * 10 ^ (0 : ℤ) = c * 10 ^ p := by
      rw [zpow_zero, mul_one]
      push_cast
      rw [← zpow_natCast, Int.toNat_of_nonneg hp0]
    rw [← hvalue] at hnear
    rw [h]
    congr 2
    apply eq_of_unpack
    rw [unpack_ofDecimal hd (Nat.mul_pos hc (Nat.pow_pos (by decide))) hnear (by decide),
      unpack_repack_finite _ _ hd]

theorem magnitude?_zero {rest : List Char} (hrest : EndsNumber rest) :
    magnitude? ('0' :: rest) = some (repack (.zero .positive), rest) := by
  have h := magnitude?_parts (.inl rfl) hrest.endsDigits
    (fraction?_of_ends fun d hd => (hrest d hd).2.1) (exponent?_of_ends hrest)
  have hvalue : ofDecimal 0 0 = repack (.zero .positive) := by
    apply eq_of_unpack
    rw [unpack_repack_zero]
    exact unpack_ofDecimal_zero
  rw [← hvalue]
  exact h

theorem number?_of_magnitude? {cs rest : List Char} {x : Float}
    (h : magnitude? cs = some (x, rest)) : number? cs = some (x, rest) := by
  unfold number?
  split
  · rw [magnitude?_eq, show wholeDigits ('-' :: _) = [] from rfl, if_pos rfl] at h
    exact absurd h (by simp)
  · exact h

/-- **The text of a finite double is read as this double**, apart from the sign of zero. -/
theorem number?_chars {x : Float} (hx : x.isFinite = true) {rest : List Char}
    (hrest : EndsNumber rest) : number? (chars x ++ rest) = some (unsignZero x, rest) := by
  have hx' : (unpack x).isFinite = true := hx
  unfold chars unsignZero
  rw [read_eq]
  have hform := form_unpack x
  generalize hu : unpack x = u at hform hx'
  cases hform with
  | notANumber => exact absurd hx' Bool.false_ne_true
  | infinity s => exact absurd hx' Bool.false_ne_true
  | zero s => exact number?_of_magnitude? (magnitude?_zero hrest)
  | @finite s m e h hd =>
    have hread := magnitude?_shortest hd hrest
    show number? ((if m = 0 then ['0']
      else withSign (isNegative s) (plain.decimal (shortest m e).1 (shortest m e).2)) ++ rest) =
      some (x, rest)
    rw [if_neg h.ne']
    cases s with
    | positive =>
      have hvalue : repack (.finite .positive m e hd.pos) = x := by
        rw [← repack_unpack x, hu]
      rw [← hvalue]
      exact number?_of_magnitude? hread
    | negative =>
      have hvalue : -repack (.finite .positive m e hd.pos) = x := by
        apply eq_of_unpack
        rw [unpack_neg, unpack_repack_finite _ _ hd, hu]
        rfl
      show (magnitude? (plain.decimal (shortest m e).1 (shortest m e).2 ++ rest)).map _ = _
      rw [hread, ← hvalue]
      rfl

end Framewise.Json
