import Framewise.Proofs.Json.Numbers
import Framewise.Proofs.Json.Strings

/-!
# Spellings of JSON values

A spelling of a value has its tokens in order, with white space between them or without. What is
read from it is the value, except for what JSON text cannot tell: numbers that JSON lacks, the sign
of zero, and fields that are named twice.

* `Spells`: a text begins with a value and goes on with a rest.
* `Spells.reads`: a spelling is read as its value, whatever the rest.
-/

namespace Framewise.Json

open Number

/-! ### What is read back -/

mutual

/-- The value that is read from the text of a value. -/
def readBack : Json → Json
  | .null => .null
  | .bool b => .bool b
  | .number x => if x.isFinite then .number (unsignZero x) else .null
  | .string s => .string s
  | .array vs => .array (readItems vs)
  | .object fs => .object (readFields [] fs)

/-- The items that are read from those of an array. -/
def readItems : List Json → List Json
  | [] => []
  | v :: vs => v.readBack :: readItems vs

/-- The fields that are read from those of an object, after those read before. -/
def readFields (read : List (String × Json)) : List (String × Json) → List (String × Json)
  | [] => read
  | (k, v) :: fs => readFields (upsert k v.readBack read) fs

end

/-! ### Spellings -/

/-- A value, or what stands behind the opening bracket of an array or an object that is not
empty. -/
inductive Part where
  | value (v : Json)
  | items (vs : List Json)
  | fields (fs : List (String × Json))

/-- The text `cs` begins with a part and goes on with `rest`. White space may stand between the
tokens. -/
inductive Spells : List Char → Part → List Char → Prop
  | null (rest : List Char) : Spells ("null".toList ++ rest) (.value .null) rest
  | isTrue (rest : List Char) : Spells ("true".toList ++ rest) (.value (.bool true)) rest
  | isFalse (rest : List Char) : Spells ("false".toList ++ rest) (.value (.bool false)) rest
  | number (x : Float) {rest : List Char} (h : EndsNumber rest) :
    Spells (numberText x ++ rest) (.value (.number x)) rest
  | string (s : String) (rest : List Char) : Spells (quote s ++ rest) (.value (.string s)) rest
  | noItems (rest : List Char) : Spells ('[' :: ']' :: rest) (.value (.array [])) rest
  | array {cs rest : List Char} {vs : List Json} (h : Spells cs (.items vs) rest) :
    Spells ('[' :: cs) (.value (.array vs)) rest
  | noFields (rest : List Char) : Spells ('\x7b' :: '\x7d' :: rest) (.value (.object [])) rest
  | object {cs rest : List Char} {fs : List (String × Json)} (h : Spells cs (.fields fs) rest) :
    Spells ('\x7b' :: cs) (.value (.object fs)) rest
  | lastItem {cs cs₁ cs₂ rest : List Char} {v : Json} (hspace : skipSpace cs = skipSpace cs₁)
    (hv : Spells cs₁ (.value v) cs₂) (hclose : skipSpace cs₂ = ']' :: rest) :
    Spells cs (.items [v]) rest
  | item {cs cs₁ cs₂ cs₃ rest : List Char} {v : Json} {vs : List Json}
    (hspace : skipSpace cs = skipSpace cs₁) (hv : Spells cs₁ (.value v) cs₂)
    (hcomma : skipSpace cs₂ = ',' :: cs₃) (hvs : Spells cs₃ (.items vs) rest) :
    Spells cs (.items (v :: vs)) rest
  | lastField {cs cs₁ cs₂ cs₃ cs₄ rest : List Char} {k : String} {v : Json}
    (hname : skipSpace cs = quote k ++ cs₁) (hcolon : skipSpace cs₁ = ':' :: cs₂)
    (hspace : skipSpace cs₂ = skipSpace cs₃) (hv : Spells cs₃ (.value v) cs₄)
    (hclose : skipSpace cs₄ = '\x7d' :: rest) : Spells cs (.fields [(k, v)]) rest
  | field {cs cs₁ cs₂ cs₃ cs₄ cs₅ rest : List Char} {k : String} {v : Json}
    {fs : List (String × Json)} (hname : skipSpace cs = quote k ++ cs₁)
    (hcolon : skipSpace cs₁ = ':' :: cs₂) (hspace : skipSpace cs₂ = skipSpace cs₃)
    (hv : Spells cs₃ (.value v) cs₄) (hcomma : skipSpace cs₄ = ',' :: cs₅)
    (hfs : Spells cs₅ (.fields fs) rest) : Spells cs (.fields ((k, v) :: fs)) rest

/-- A part is read from a text, within the bound that the length of the part gives. -/
def Reads (cs : List Char) (part : Part) (rest : List Char) : Prop :=
  rest.length < cs.length ∧ ∀ n, cs.length ≤ n + rest.length →
    match part with
    | .value v => value? n cs = some (v.readBack, rest)
    | .items vs => ∀ read, items? n read cs = some (read.reverse ++ readItems vs, rest)
    | .fields fs => ∀ read, fields? n read cs = some (readFields read fs, rest)

/-! ### Reading a spelling -/

theorem length_skipSpace_le (cs : List Char) : (skipSpace cs).length ≤ cs.length :=
  (List.dropWhile_sublist isSpace).length_le

theorem length_le_of_space {cs cs' : List Char} (h : skipSpace cs = cs') :
    cs'.length ≤ cs.length := by
  rw [← h]
  exact length_skipSpace_le cs

theorem length_lt_of_token {c : Char} {cs cs' : List Char} (h : skipSpace cs = c :: cs') :
    cs'.length < cs.length := by
  have hle := length_le_of_space h
  rw [List.length_cons] at hle
  exact hle

theorem number?_none {c : Char} (hdigit : c.isDigit = false) (hsign : c ≠ '-') (cs : List Char) :
    number? (c :: cs) = none := by
  have hwhole : wholeDigits (c :: cs) = [] := by
    unfold wholeDigits
    split
    · next heq =>
      obtain ⟨rfl, -⟩ := List.cons.inj heq
      exact absurd hdigit (by decide)
    · unfold leadingDigits
      rw [List.takeWhile_cons, hdigit]
      rfl
  unfold number?
  split
  · next heq => exact absurd (List.cons.inj heq).1 hsign
  · rw [magnitude?_eq, hwhole, if_pos rfl]

/-- What a number begins is not read as anything else. -/
theorem value?_of_number? {cs rest : List Char} {x : Float} (h : number? cs = some (x, rest))
    (n : ℕ) : value? (n + 1) cs = some (.number x, rest) := by
  have hfirst : ∀ (c : Char) (cs' : List Char), c.isDigit = false → c ≠ '-' → cs ≠ c :: cs' := by
    rintro c cs' hdigit hsign rfl
    rw [number?_none hdigit hsign] at h
    exact absurd h (by simp)
  unfold value?
  split
  · exact absurd (show number? [] = none from rfl) (by rw [h]; simp)
  · exact absurd rfl (hfirst _ _ (by decide) (by decide))
  · exact absurd rfl (hfirst _ _ (by decide) (by decide))
  · exact absurd rfl (hfirst _ _ (by decide) (by decide))
  · exact absurd rfl (hfirst _ _ (by decide) (by decide))
  · exact absurd rfl (hfirst _ _ (by decide) (by decide))
  · exact absurd rfl (hfirst _ _ (by decide) (by decide))
  · rw [h]
    rfl

/-- No value begins with white space or with a closing bracket. -/
theorem value?_none {c : Char} (hc : isSpace c = true ∨ c = ']') (n : ℕ) (cs : List Char) :
    value? n (c :: cs) = none := by
  have hne : c ≠ '"' ∧ c ≠ '[' ∧ c ≠ '\x7b' ∧ c ≠ 'n' ∧ c ≠ 't' ∧ c ≠ 'f' := by
    refine ⟨?_, ?_, ?_, ?_, ?_, ?_⟩ <;>
    · rintro rfl
      exact absurd hc (by decide)
  have hnumber : number? (c :: cs) = none := by
    refine number?_none ?_ ?_ cs
    · unfold isSpace at hc
      simp only [Bool.or_eq_true, beq_iff_eq] at hc
      rcases hc with (((rfl | rfl) | rfl) | rfl) | rfl
      all_goals decide
    · rintro rfl
      exact absurd hc (by decide)
  cases n with
  | zero => rw [value?]
  | succ n =>
    obtain ⟨h1, h2, h3, h4, h5, h6⟩ := hne
    unfold value?
    split
    · rfl
    · next heq => exact absurd (List.cons.inj heq).1 h1
    · next heq => exact absurd (List.cons.inj heq).1 h2
    · next heq => exact absurd (List.cons.inj heq).1 h3
    · next heq => exact absurd (List.cons.inj heq).1 h4
    · next heq => exact absurd (List.cons.inj heq).1 h5
    · next heq => exact absurd (List.cons.inj heq).1 h6
    · rw [hnumber]
      rfl

/-- A value that is read does not begin with white space. -/
theorem begins_of_value? {n : ℕ} {cs rest : List Char} {v : Json}
    (h : value? n cs = some (v, rest)) : skipSpace cs = cs := by
  cases cs with
  | nil => rfl
  | cons c cs =>
    have hspace : isSpace c = false := by
      rw [← Bool.not_eq_true]
      intro hc
      rw [value?_none (.inl hc)] at h
      exact absurd h (by simp)
    unfold skipSpace
    rw [List.dropWhile_cons, hspace]
    rfl

theorem skipSpace_skipSpace (cs : List Char) : skipSpace (skipSpace cs) = skipSpace cs := by
  induction cs with
  | nil => rfl
  | cons c cs ih =>
    by_cases hc : isSpace c = true
    · have hskip : skipSpace (c :: cs) = skipSpace cs := List.dropWhile_cons_of_pos hc
      rw [hskip]
      exact ih
    · have hskip : skipSpace (c :: cs) = c :: cs := List.dropWhile_cons_of_neg hc
      rw [hskip, hskip]

theorem items?_skipSpace (n : ℕ) (read : List Json) (cs : List Char) :
    items? n read (skipSpace cs) = items? n read cs := by
  cases n with
  | zero => rfl
  | succ n => rw [items?, items?, skipSpace_skipSpace]

theorem fields?_skipSpace (n : ℕ) (read : List (String × Json)) (cs : List Char) :
    fields? n read (skipSpace cs) = fields? n read cs := by
  cases n with
  | zero => rfl
  | succ n => rw [fields?, fields?, skipSpace_skipSpace]

/-- Where items are read, no bracket closes the array before them. -/
theorem ne_close_of_items? {n : ℕ} {cs rest : List Char} {vs : List Json}
    (h : items? n [] cs = some (vs, rest)) (cs' : List Char) : skipSpace cs ≠ ']' :: cs' := by
  intro hclose
  cases n with
  | zero => exact absurd h (by simp [items?])
  | succ n =>
    rw [items?, hclose, value?_none (.inr rfl)] at h
    exact absurd h (by simp)

theorem ne_close_of_fields? {n : ℕ} {cs rest : List Char} {fs : List (String × Json)}
    (h : fields? n [] cs = some (fs, rest)) (cs' : List Char) : skipSpace cs ≠ '\x7d' :: cs' := by
  intro hclose
  cases n with
  | zero => exact absurd h (by simp [fields?])
  | succ n =>
    rw [fields?, hclose] at h
    exact absurd h (by simp)

theorem value?_array {n : ℕ} {cs rest : List Char} {vs : List Json}
    (h : items? n [] cs = some (vs, rest)) :
    value? (n + 1) ('[' :: cs) = some (.array vs, rest) := by
  rw [value?]
  split
  · next hclose => exact absurd hclose (ne_close_of_items? h _)
  · rw [items?_skipSpace, h]
    rfl

theorem value?_object {n : ℕ} {cs rest : List Char} {fs : List (String × Json)}
    (h : fields? n [] cs = some (fs, rest)) :
    value? (n + 1) ('\x7b' :: cs) = some (.object fs, rest) := by
  rw [value?]
  split
  · next hclose => exact absurd hclose (ne_close_of_fields? h _)
  · rw [fields?_skipSpace, h]
    rfl

theorem quote_append (s : String) (rest : List Char) :
    quote s ++ rest = '"' :: (s.toList.flatMap escapeChar ++ '"' :: rest) := by
  unfold quote
  rw [List.append_assoc]
  rfl

theorem length_lt_of_name {k : String} {cs cs' : List Char} (h : skipSpace cs = quote k ++ cs') :
    cs'.length < cs.length := by
  rw [quote_append] at h
  have hlt := length_lt_of_token h
  rw [List.length_append, List.length_cons] at hlt
  omega

theorem length_numberText_pos {x : Float} (h : x.isFinite = true) : 0 < (numberText x).length := by
  apply Nat.pos_of_ne_zero
  intro hzero
  have hnil : numberText x = [] := List.length_eq_zero_iff.1 hzero
  have hread := @number?_chars x h [] (by rintro c ⟨⟩)
  have hchars : chars x = numberText x := (if_pos h).symm
  rw [hchars, hnil] at hread
  exact absurd (show number? [] = none from rfl) (by rw [← List.append_nil [], hread]; simp)

/-- An item is read where the white space before it ends; what follows it says whether more items
follow. -/
theorem items?_item {n : ℕ} {cs cs₁ cs₂ : List Char} {v : Json} (hspace : skipSpace cs = cs₁)
    (hv : value? n cs₁ = some (v, cs₂)) (read : List Json) :
    items? (n + 1) read cs =
      match skipSpace cs₂ with
      | ',' :: rest => items? n (v :: read) rest
      | ']' :: rest => some ((v :: read).reverse, rest)
      | _ => none := by
  rw [items?, hspace, hv]
  rfl

/-- A field is read from its name, its colon and its value; what follows the value says whether
more fields follow. -/
theorem fields?_field {n : ℕ} {cs cs₁ cs₂ cs₃ cs₄ : List Char} {k : String} {v : Json}
    (hname : skipSpace cs = quote k ++ cs₁) (hcolon : skipSpace cs₁ = ':' :: cs₂)
    (hspace : skipSpace cs₂ = cs₃) (hv : value? n cs₃ = some (v, cs₄))
    (read : List (String × Json)) :
    fields? (n + 1) read cs =
      match skipSpace cs₄ with
      | ',' :: rest => fields? n (upsert k v read) rest
      | '\x7d' :: rest => some (upsert k v read, rest)
      | _ => none := by
  rw [fields?, hname, quote_append]
  show (string? (k.toList.flatMap escapeChar ++ '"' :: cs₁)).bind _ = _
  rw [string?_quote]
  simp only [Option.bind_some]
  rw [hcolon]
  show (value? n (skipSpace cs₂)).bind _ = _
  rw [hspace, hv]
  rfl

/-- The first character of a value takes one from the bound. -/
theorem Reads.value {c : Char} {cs rest : List Char} {v : Json} (hlen : rest.length ≤ cs.length)
    (h : ∀ n, cs.length ≤ n + rest.length → value? (n + 1) (c :: cs) = some (v.readBack, rest)) :
    Reads (c :: cs) (.value v) rest := by
  refine ⟨Nat.lt_succ_of_le hlen, ?_⟩
  intro n hn
  rw [List.length_cons] at hn
  obtain ⟨n, rfl⟩ : ∃ m, n = m + 1 := ⟨n - 1, by omega⟩
  exact h n (by omega)

/-- No white space stands before the text of a value. -/
theorem Reads.begins {cs rest : List Char} {v : Json} (h : Reads cs (.value v) rest) :
    skipSpace cs = cs := by
  obtain ⟨-, hread⟩ := h
  have hvalue : value? cs.length cs = some (v.readBack, rest) := by
    apply hread
    exact Nat.le_add_right _ _
  exact begins_of_value? hvalue

theorem reads_number (x : Float) {rest : List Char} (hrest : EndsNumber rest) :
    Reads (numberText x ++ rest) (.value (.number x)) rest := by
  by_cases hx : x.isFinite = true
  · have hlen := length_numberText_pos hx
    have hchars : numberText x = chars x := if_pos hx
    refine ⟨by rw [List.length_append]; omega, ?_⟩
    intro n hn
    rw [List.length_append] at hn
    obtain ⟨n, rfl⟩ : ∃ m, n = m + 1 := ⟨n - 1, by omega⟩
    show value? (n + 1) _ = some (.readBack (.number x), rest)
    rw [hchars, value?_of_number? (number?_chars hx hrest), readBack, if_pos hx]
  · have htext : numberText x = "null".toList := if_neg hx
    have hread : Json.readBack (.number x) = .null := by
      rw [readBack, if_neg hx]
    rw [htext]
    apply Reads.value (Nat.le_add_right _ 3)
    intro n _
    rw [hread]
    rfl

/-- **A spelling is read as what it spells.** -/
theorem Spells.reads {cs rest : List Char} {part : Part} (h : Spells cs part rest) :
    Reads cs part rest := by
  -- On the derivation. Each token takes one from the bound and at least one character from the
  -- text, so what is left of the bound is enough for what is left of the part.
  induction h with
  | null rest => exact .value (Nat.le_add_right _ 3) fun _ _ => rfl
  | isTrue rest => exact .value (Nat.le_add_right _ 3) fun _ _ => rfl
  | isFalse rest => exact .value (Nat.le_add_right _ 4) fun _ _ => rfl
  | @number x rest hrest => exact reads_number x hrest
  | string s rest =>
    rw [quote_append]
    have hlen : rest.length ≤ (s.toList.flatMap escapeChar ++ '"' :: rest).length := by
      rw [List.length_append, List.length_cons]
      omega
    apply Reads.value hlen
    intro n _
    show (string? (s.toList.flatMap escapeChar ++ '"' :: rest)).map _ = _
    rw [string?_quote]
    rfl
  | noItems rest => exact .value (Nat.le_add_right _ 1) fun _ _ => rfl
  | @array cs rest vs hvs ih =>
    obtain ⟨hlen, ih⟩ := ih
    exact .value hlen.le fun n hn => value?_array (ih n hn [])
  | noFields rest => exact .value (Nat.le_add_right _ 1) fun _ _ => rfl
  | @object cs rest fs hfs ih =>
    obtain ⟨hlen, ih⟩ := ih
    exact .value hlen.le fun n hn => value?_object (ih n hn [])
  | @lastItem cs cs₁ cs₂ rest v hspace hv hclose ih =>
    rw [ih.begins] at hspace
    obtain ⟨hlen, ih⟩ := ih
    have hbefore := length_le_of_space hspace
    have hafter := length_lt_of_token hclose
    refine ⟨by omega, ?_⟩
    intro n hn read
    obtain ⟨n, rfl⟩ : ∃ m, n = m + 1 := ⟨n - 1, by omega⟩
    rw [items?_item hspace (ih n (by omega)), hclose]
    show some ((v.readBack :: read).reverse, rest) = some (read.reverse ++ readItems [v], rest)
    rw [List.reverse_cons]
    rfl
  | @item cs cs₁ cs₂ cs₃ rest v vs hspace hv hcomma hvs ihv ihvs =>
    rw [ihv.begins] at hspace
    obtain ⟨hlen, ihv⟩ := ihv
    obtain ⟨hlens, ihvs⟩ := ihvs
    have hbefore := length_le_of_space hspace
    have hafter := length_lt_of_token hcomma
    refine ⟨by omega, ?_⟩
    intro n hn read
    obtain ⟨n, rfl⟩ : ∃ m, n = m + 1 := ⟨n - 1, by omega⟩
    rw [items?_item hspace (ihv n (by omega)), hcomma]
    show items? n (v.readBack :: read) cs₃ = some (read.reverse ++ readItems (v :: vs), rest)
    rw [ihvs n (by omega) (v.readBack :: read), List.reverse_cons, List.append_assoc]
    rfl
  | @lastField cs cs₁ cs₂ cs₃ cs₄ rest k v hname hcolon hspace hv hclose ih =>
    rw [ih.begins] at hspace
    obtain ⟨hlen, ih⟩ := ih
    have hshort := length_lt_of_name hname
    have hshorter := length_lt_of_token hcolon
    have hbefore := length_le_of_space hspace
    have hafter := length_lt_of_token hclose
    refine ⟨by omega, ?_⟩
    intro n hn read
    obtain ⟨n, rfl⟩ : ∃ m, n = m + 1 := ⟨n - 1, by omega⟩
    show fields? (n + 1) read cs = _
    rw [fields?_field hname hcolon hspace (ih n (by omega)), hclose]
    rfl
  | @field cs cs₁ cs₂ cs₃ cs₄ cs₅ rest k v fs hname hcolon hspace hv hcomma hfs ihv ihfs =>
    rw [ihv.begins] at hspace
    obtain ⟨hlen, ihv⟩ := ihv
    obtain ⟨hlens, ihfs⟩ := ihfs
    have hshort := length_lt_of_name hname
    have hshorter := length_lt_of_token hcolon
    have hbefore := length_le_of_space hspace
    have hafter := length_lt_of_token hcomma
    refine ⟨by omega, ?_⟩
    intro n hn read
    obtain ⟨n, rfl⟩ : ∃ m, n = m + 1 := ⟨n - 1, by omega⟩
    show fields? (n + 1) read cs = _
    rw [fields?_field hname hcolon hspace (ihv n (by omega)), hcomma]
    exact ihfs n (by omega) (upsert k v.readBack read)

end Framewise.Json
