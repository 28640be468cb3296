import Framewise.Log.Reader
import Framewise.Proofs.Number.Grammar
import Framewise.Proofs.Text.Pieces

/-!
# The values of a log

A value is a numeral between blanks. What is none is an error that carries the token as it stands.

* `parseNumber_spec`: which tokens are values, and which of them are the same value.
-/

namespace Framewise.Log

open Number Text

variable {token : String} {x : Float} {left body front : List Char}

/-! ### Which tokens are values -/

theorem parseNumber_eq_ok_iff :
    parseNumber token = .ok x ↔ ∃ n, Spells (trim token.toList) n ∧ n.value = x := by
  simp only [← numeral?_eq_some_iff, ← Option.map_eq_some_iff]
  show _ ↔ Number.parse? token = some x
  unfold parseNumber
  cases Number.parse? token with
  | none => simp
  | some y => simp

theorem parseNumber_of_spells {n : Numeral} (h : Spells (trim token.toList) n) :
    parseNumber token = .ok n.value := parseNumber_eq_ok_iff.2 ⟨n, h, rfl⟩

theorem parseNumber_of_not_spells (h : ∀ n, ¬ Spells (trim token.toList) n) :
    parseNumber token = .error ⟨.badNumber token, token, none, none⟩ := by
  cases hread : Number.parse? token with
  | none => rw [parseNumber, hread]
  | some x =>
    obtain ⟨n, hspelled, -⟩ := parseNumber_eq_ok_iff.1 (by rw [parseNumber, hread])
    exact absurd hspelled (h n)

/-! ### What stands before a value -/

/-- What is put in between the leading blanks of a text and the rest stays when it is trimmed. -/
theorem trim_behind (hleft : ∀ c ∈ left, isBlank c = true) (hfront : ∀ c ∈ front, isBlank c = false)
    (hbody : ∀ c ∈ body.head?, isBlank c = false) :
    trim (String.ofList (left ++ front ++ body)).toList = front ++ trim body := by
  rw [String.toList_ofList, List.append_assoc, trim_leading hleft, trim_append_left hfront hbody]

/-- A value without a sign is an unsigned numeral behind the leading blanks. -/
theorem unsigned_of_parseNumber (hleft : ∀ c ∈ left, isBlank c = true)
    (hbody : ∀ c ∈ body.head?, isBlank c = false) (hsign : NoSign body)
    (h : parseNumber (String.ofList (left ++ body)) = .ok x) :
    ∃ meaning, Unsigned (trim body) meaning ∧ (meaning false).value = x := by
  obtain ⟨n, hspelled, rfl⟩ := parseNumber_eq_ok_iff.1 h
  rw [String.toList_ofList, trim_leading hleft] at hspelled
  have hnone : NoSign (trim body) := fun c hc =>
    hsign c (head?_of_isPrefix (trim_isPrefix hbody) c hc)
  obtain ⟨meaning, hunsigned, rfl⟩ := hspelled.unsigned hnone
  exact ⟨meaning, hunsigned, rfl⟩

/-- A sign is put before the numeral, and behind the leading blanks. -/
theorem parseNumber_signed {sign : List Char} {negative : Bool} {meaning : Bool → Numeral}
    (hsign : OptionalSign sign negative) (hleft : ∀ c ∈ left, isBlank c = true)
    (hbody : ∀ c ∈ body.head?, isBlank c = false) (hunsigned : Unsigned (trim body) meaning) :
    parseNumber (String.ofList (left ++ sign ++ body)) = .ok (meaning negative).value := by
  have hfront : ∀ c ∈ sign, isBlank c = false := hsign.forall_mem (by decide) (by decide)
  apply parseNumber_of_spells
  rw [trim_behind hleft hfront hbody]
  exact .mk hsign hunsigned

theorem parseNumber_zeros {meaning : Bool → Numeral} (hleft : ∀ c ∈ left, isBlank c = true)
    (hbody : ∀ c ∈ body.head?, isBlank c = false) (hnumber : BeginsNumber body)
    (hunsigned : Unsigned (trim body) meaning) (k : ℕ) :
    parseNumber (String.ofList (left ++ List.replicate k '0' ++ body)) =
      .ok (meaning false).value := by
  have hfront : ∀ c ∈ List.replicate k '0', isBlank c = false := by
    intro c hc
    obtain rfl := List.eq_of_mem_replicate hc
    decide
  -- Words begin with another character, so the numeral is a decimal one.
  have hdecimal : BeginsNumber (trim body) := by
    rcases hunsigned.begins with hdecimal | ⟨c, hc, hletter⟩
    · exact hdecimal
    · have hword : BeginsWord body := ⟨c, head?_of_isPrefix (trim_isPrefix hbody) c hc, hletter⟩
      exact absurd hnumber hword.not_beginsNumber
  apply parseNumber_of_spells
  rw [trim_behind hleft hfront hbody]
  have hspelled := Spells.mk .absent (hunsigned.zeros hdecimal k)
  exact hspelled

/-! ### Integers -/

/-- A numeral with an optional sign before it and no blank in it denotes its value. -/
theorem parseNumber_of_unsigned {sign cs : List Char} {negative : Bool} {meaning : Bool → Numeral}
    (htoken : token.toList = sign ++ cs) (hsign : OptionalSign sign negative)
    (hcs : ∀ c ∈ cs, isBlank c = false) (hunsigned : Unsigned cs meaning) :
    parseNumber token = .ok (meaning negative).value := by
  have hhead : ∀ c ∈ cs.head?, isBlank c = false := fun c hc => hcs c (List.mem_of_mem_head? hc)
  have hread := parseNumber_signed hsign (List.forall_mem_nil _) hhead (by rwa [trim_of_blankFree hcs])
  rwa [List.nil_append, ← htoken, String.ofList_toList] at hread

/-- The two ways to read digits agree: as an integer, and as a decimal numeral with a point or with
an exponent part that add nothing. -/
theorem parseNumber_integer {sign ds : List Char} {negative : Bool}
    (htoken : token.toList = sign ++ ds) (hsign : OptionalSign sign negative) (hdigits : Digits ds) :
    parseNumber (token ++ ".") = parseNumber token ∧
      parseNumber (token ++ "e0") = parseNumber token := by
  have hplain : ∀ c ∈ ds, isBlank c = false := fun c hc => not_isBlank_of_isDigit (hdigits.2 c hc)
  have hpoint : ∀ c ∈ ds ++ ['.'], isBlank c = false :=
    List.forall_mem_append.2 ⟨hplain, forall_eq_false (by decide)⟩
  have hexponent : ∀ c ∈ ds ++ ['e', '0'], isBlank c = false :=
    List.forall_mem_append.2 ⟨hplain, forall_eq_false (by decide)⟩
  have htokenPoint : (token ++ ".").toList = sign ++ (ds ++ ['.']) := by
    rw [String.toList_append, htoken, List.append_assoc]
    rfl
  have htokenExponent : (token ++ "e0").toList = sign ++ (ds ++ ['e', '0']) := by
    rw [String.toList_append, htoken, List.append_assoc]
    rfl
  rw [parseNumber_of_unsigned htoken hsign hplain (.integer hdigits),
    parseNumber_of_unsigned htokenPoint hsign hpoint (.decimal hdigits.decimal_point),
    parseNumber_of_unsigned htokenExponent hsign hexponent (.decimal hdigits.decimal_exponent)]
  exact ⟨rfl, rfl⟩

/-! ### The values of a log -/

/-- **The values of a log.** A token is a value exactly when the grammar derives it, blanks around it
aside, and then it is the double nearest to the numeral; any other token is an error that carries it
with its blanks. Digits are the same value as an integer and as a decimal numeral. Blanks around a
value change nothing. A sign that is put before an unsigned numeral, behind the blanks that the token
begins with, keeps the value or negates it, and zeros there change nothing before a decimal one. -/
theorem parseNumber_spec (token : String) :
    ((∃ x, parseNumber token = .ok x) ↔ ∃ n, Spells (trim token.toList) n) ∧
    (∀ n, Spells (trim token.toList) n → parseNumber token = .ok n.value) ∧
    ((∀ n, ¬ Spells (trim token.toList) n) →
      parseNumber token = .error ⟨.badNumber token, token, none, none⟩) ∧
    (∀ sign ds negative, token.toList = sign ++ ds → OptionalSign sign negative → Digits ds →
      parseNumber (token ++ ".") = parseNumber token ∧
        parseNumber (token ++ "e0") = parseNumber token) ∧
    ∀ x, parseNumber token = .ok x →
      (∀ left right, (∀ c ∈ left, isBlank c = true) → (∀ c ∈ right, isBlank c = true) →
        parseNumber (String.ofList (left ++ token.toList ++ right)) = .ok x) ∧
      ∀ left body, token.toList = left ++ body → (∀ c ∈ left, isBlank c = true) →
        (∀ c ∈ body.head?, isBlank c = false) →
        (NoSign body → parseNumber (String.ofList (left ++ ['+'] ++ body)) = .ok x ∧
          parseNumber (String.ofList (left ++ ['-'] ++ body)) = .ok (-x)) ∧
        (BeginsNumber body →
          ∀ k, parseNumber (String.ofList (left ++ List.replicate k '0' ++ body)) = .ok x) := by
  refine ⟨⟨?_, ?_⟩, ?_, parseNumber_of_not_spells, ?_, ?_⟩
  · rintro ⟨x, hread⟩
    obtain ⟨n, hspelled, -⟩ := parseNumber_eq_ok_iff.1 hread
    exact ⟨n, hspelled⟩
  · rintro ⟨n, hspelled⟩
    exact ⟨_, parseNumber_of_spells hspelled⟩
  · exact fun n => parseNumber_of_spells
  · exact fun sign ds negative => parseNumber_integer
  · intro x hread
    refine ⟨?_, ?_⟩
    · intro left right hleft hright
      obtain ⟨n, hspelled, hvalue⟩ := parseNumber_eq_ok_iff.1 hread
      refine parseNumber_eq_ok_iff.2 ⟨n, ?_, hvalue⟩
      rwa [String.toList_ofList, trim_surround hleft hright]
    · intro left body htoken hleft hbody
      rw [← String.ofList_toList (s := token), htoken] at hread
      refine ⟨?_, ?_⟩
      · intro hsign
        obtain ⟨meaning, hunsigned, rfl⟩ := unsigned_of_parseNumber hleft hbody hsign hread
        rw [parseNumber_signed .plus hleft hbody hunsigned,
          parseNumber_signed .minus hleft hbody hunsigned, hunsigned.value_negated]
        exact ⟨rfl, rfl⟩
      · intro hnumber k
        obtain ⟨meaning, hunsigned, rfl⟩ :=
          unsigned_of_parseNumber hleft hbody hnumber.noSign hread
        exact parseNumber_zeros hleft hbody hnumber hunsigned k

theorem parseNumber_spec_padded :
    parseNumber "\t 12\n" = .ok 12 ∧ parseNumber " +12" = .ok 12 ∧ parseNumber " -12" = .ok (-12) ∧
      parseNumber " 00012" = .ok 12 ∧ parseNumber "-12." = parseNumber "-12" ∧
      parseNumber "-12e0" = parseNumber "-12" ∧
      parseNumber " 12ms" = .error ⟨.badNumber " 12ms", " 12ms", none, none⟩ := by
  have hdigits : Digits "12".toList := ⟨by decide, List.all_eq_true.1 (by decide)⟩
  have hspelled : Spells (trim " 12".toList) (.decimal false 12 0) :=
    .mk .absent (.integer hdigits)
  obtain ⟨-, hvalue, -, -, hsame⟩ := parseNumber_spec " 12"
  have hread : parseNumber " 12" = .ok 12 := (hvalue _ hspelled).trans (by decide +kernel)
  obtain ⟨hsurround, hbehind⟩ := hsame 12 hread
  obtain ⟨hsign, hzeros⟩ := hbehind [' '] "12".toList rfl
    (List.all_eq_true.1 (by decide)) fun c hc => by cases hc; decide
  obtain ⟨hplus, hminus⟩ := hsign (hdigits.beginsNumber []).noSign
  obtain ⟨hpoint, hexponent⟩ := (parseNumber_spec "-12").2.2.2.1 ['-'] _ _ rfl .minus hdigits
  have hbad : ∀ n, ¬ Spells (trim " 12ms".toList) n := by
    intro n hspells
    have hnumeral := numeral?_eq_some_iff.2 hspells
    rw [show numeral? (trim " 12ms".toList) = none by decide] at hnumeral
    cases hnumeral
  exact ⟨hsurround ['\t'] ['\n'] (List.all_eq_true.1 (by decide)) (List.all_eq_true.1 (by decide)),
    hplus, hminus, hzeros (hdigits.beginsNumber []) 3, hpoint, hexponent,
    (parseNumber_spec " 12ms").2.2.1 hbad⟩

/-- A sign before the leading blanks is no part of a numeral. -/
theorem parseNumber_sign_before_blank :
    ¬ ∀ (token : String) (x : Float), (∃ meaning, Unsigned (trim token.toList) meaning) →
      parseNumber token = .ok x → parseNumber ("+" ++ token) = .ok x := by
  intro h
  have hunsigned : Unsigned "5".toList _ := .integer ⟨by decide, List.all_eq_true.1 (by decide)⟩
  have hread := h " 5" 5 ⟨_, hunsigned⟩ (by decide +kernel)
  exact absurd hread (by decide +kernel)

end Framewise.Log
