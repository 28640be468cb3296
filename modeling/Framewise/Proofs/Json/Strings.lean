import Mathlib.Tactic.SplitIfs
import Framewise.Json.Parser
import Framewise.Json.Printer

/-!
# Strings in JSON text

A string is written with escapes and read as 16-bit units. The units of its characters, in pairs
where a character takes two, give the string back.

* `stringUnits?_escapeChar`: one character is read as its units.
* `string?_quote`: a quoted string is read as this string.
-/

namespace Framewise.Json

/-! ### Reading what is escaped -/

/-- An escape of two characters is read as the one that it stands for. -/
theorem stringUnits?_escaped {x e : Char} (hx : x ≠ 'u') (he : escaped? x = some e)
    (read : List Nat) (cs : List Char) :
    stringUnits? read ('\\' :: x :: cs) = stringUnits? (e.toNat :: read) cs := by
  rw [stringUnits?]
  · rw [he]
    rfl
  · rintro a b c d cs' rfl
    exact absurd rfl hx

theorem stringUnits?_plain {c : Char} (hquote : c ≠ '"') (hslash : c ≠ '\\')
    (hcontrol : ¬ c.toNat < 0x20) (read : List Nat) (cs : List Char) :
    stringUnits? read (c :: cs) = stringUnits? ((Text.charUnits c).reverse ++ read) cs := by
  rw [stringUnits?]
  · rw [if_neg (not_or.2 ⟨hcontrol, hslash⟩)]
  · exact hquote
  · rintro a b c d cs' rfl
    exact absurd rfl hslash
  · rintro c' cs' rfl
    exact absurd rfl hslash

theorem hexValue?_hexDigits : ∀ n : Fin 0x20, hexValue? (hexDigits n) = some n.val := by
  decide

/-- One character of a string is read as its units. -/
theorem stringUnits?_escapeChar (c : Char) (read : List Nat) (cs : List Char) :
    stringUnits? read (escapeChar c ++ cs) = stringUnits? ((Text.charUnits c).reverse ++ read) cs := by
  unfold escapeChar
  split_ifs with hquote hslash _ _ _ _ _ hcontrol
  iterate 7
    · rw [‹c = _›]
      exact stringUnits?_escaped (by decide) rfl read cs
  · have hunits : Text.charUnits c = [c.toNat] := by
      unfold Text.charUnits
      rw [if_pos (by omega)]
    rw [hunits]
    show (hexValue? (hexDigits c.toNat)).bind _ = _
    rw [hexValue?_hexDigits ⟨c.toNat, hcontrol⟩]
    rfl
  · exact stringUnits?_plain hquote hslash hcontrol read cs

/-- The characters of a string are read up to the closing quote. -/
theorem stringUnits?_flatMap (ss : List Char) (read : List Nat) (rest : List Char) :
    stringUnits? read (ss.flatMap escapeChar ++ '"' :: rest) =
      some (read.reverse ++ ss.flatMap Text.charUnits, rest) := by
  induction ss generalizing read with
  | nil =>
    rw [List.flatMap_nil, List.flatMap_nil, List.append_nil, List.nil_append, stringUnits?]
  | cons c ss ih =>
    rw [List.flatMap_cons, List.flatMap_cons, List.append_assoc, stringUnits?_escapeChar, ih,
      List.reverse_append, List.reverse_reverse, List.append_assoc]

/-! ### Units -/

theorem ofUnits_single {n : Nat} (h : n < 0xD800 ∨ 0xE000 ≤ n) (us : List Nat) :
    ofUnits (n :: us) = Char.ofNat n :: ofUnits us := by
  have hlead : isLead n = false := by
    unfold isLead
    rw [Bool.and_eq_false_iff, decide_eq_false_iff_not, decide_eq_false_iff_not]
    omega
  have htrail : isTrail n = false := by
    unfold isTrail
    rw [Bool.and_eq_false_iff, decide_eq_false_iff_not, decide_eq_false_iff_not]
    omega
  cases us with
  | nil => simp only [ofUnits, hlead, htrail, Bool.or_false, Bool.false_eq_true, if_false]
  | cons m us =>
    simp only [ofUnits, hlead, htrail, Bool.or_false, Bool.false_and, Bool.false_eq_true, if_false]

/-- A pair of surrogates is one character. -/
theorem ofUnits_pair {n m : Nat} (hn : 0xD800 ≤ n ∧ n < 0xDC00) (hm : 0xDC00 ≤ m ∧ m < 0xE000)
    (us : List Nat) : ofUnits (n :: m :: us) =
      Char.ofNat (0x10000 + (n - 0xD800) * 0x400 + (m - 0xDC00)) :: ofUnits us := by
  have hlead : isLead n = true := by
    unfold isLead
    rw [Bool.and_eq_true, decide_eq_true_eq, decide_eq_true_eq]
    exact hn
  have htrail : isTrail m = true := by
    unfold isTrail
    rw [Bool.and_eq_true, decide_eq_true_eq, decide_eq_true_eq]
    exact hm
  simp only [ofUnits, hlead, htrail, Bool.and_self, if_true]

/-- The units of a character give it back. -/
theorem ofUnits_charUnits (c : Char) (us : List Nat) :
    ofUnits (Text.charUnits c ++ us) = c :: ofUnits us := by
  have hmax := Text.toNat_lt_max c
  unfold Text.charUnits
  split
  · have hvalid : c.toNat < 0xD800 ∨ 0xE000 ≤ c.toNat := by
      have h : c.toNat.isValidChar := c.valid
      unfold Nat.isValidChar at h
      omega
    rw [List.singleton_append, ofUnits_single hvalid, Char.ofNat_toNat]
  · rw [List.cons_append, List.singleton_append, ofUnits_pair (by omega) (by omega)]
    have hvalue : 0x10000 + (0xD800 + (c.toNat - 0x10000) / 0x400 - 0xD800) * 0x400 +
        (0xDC00 + (c.toNat - 0x10000) % 0x400 - 0xDC00) = c.toNat := by omega
    rw [hvalue, Char.ofNat_toNat]

theorem ofUnits_flatMap (ss : List Char) : ofUnits (ss.flatMap Text.charUnits) = ss := by
  induction ss with
  | nil => rfl
  | cons c ss ih => rw [List.flatMap_cons, ofUnits_charUnits, ih]

/-- **A quoted string is read as this string.** -/
theorem string?_quote (s : String) (rest : List Char) :
    string? (s.toList.flatMap escapeChar ++ '"' :: rest) = some (s, rest) := by
  unfold string?
  rw [stringUnits?_flatMap]
  show some (String.ofList (ofUnits (s.toList.flatMap Text.charUnits)), rest) = _
  rw [ofUnits_flatMap, String.ofList_toList]

end Framewise.Json
