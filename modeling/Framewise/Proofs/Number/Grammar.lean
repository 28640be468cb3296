import Mathlib.Data.Int.Notation
import Mathlib.Data.List.Forall2
import Mathlib.Data.List.TakeWhile
import Mathlib.Data.Option.Basic
import Framewise.Text.LetterCase
import Framewise.Proofs.Number.Digits

/-!
# The grammar of log values

Which texts are numerals, stated as a grammar that says nothing of how a text is read: an optional
sign, and then digits, or a decimal numeral with its optional parts, or a word in any letter case.

* `numeral?_eq_some_iff`: a text is read as a numeral exactly when the grammar derives it.
* `Unsigned.zeros`: zeros before a decimal numeral change nothing.
* `Unsigned.value_negated`: the sign negates the value.
-/

namespace Framewise.Number

/-! ### The grammar -/

/-- A run of at least one digit. -/
def Digits (cs : List Char) : Prop := cs ≠ [] ∧ ∀ c ∈ cs, c.isDigit = true

/-- A sign that may be left out, and whether it negates. -/
inductive OptionalSign : List Char → Bool → Prop
  | absent : OptionalSign [] false
  | plus : OptionalSign ['+'] false
  | minus : OptionalSign ['-'] true

/-- Digits with at most one point, and the digits before and after it. One of the two runs may be
empty, but the point may only be left out after digits. -/
inductive Pointed : List Char → List Char → List Char → Prop
  | whole {ds : List Char} (digits : Digits ds) : Pointed ds ds []
  | trailing {ds fs : List Char} (digits : Digits ds) (fraction : ∀ c ∈ fs, c.isDigit = true) :
      Pointed (ds ++ '.' :: fs) ds fs
  | leading {fs : List Char} (fraction : Digits fs) : Pointed ('.' :: fs) [] fs

/-- An exponent part that may be left out, and the exponent. -/
inductive OptionalExponent : List Char → ℤ → Prop
  | absent : OptionalExponent [] 0
  | present {mark : Char} {sign ds : List Char} {negative : Bool} (letter : mark = 'e' ∨ mark = 'E')
      (signed : OptionalSign sign negative) (digits : Digits ds) :
      OptionalExponent (mark :: (sign ++ ds)) (signedInt negative (digitsValue ds))

/-- A decimal numeral without a sign, with its significand and its exponent. -/
inductive Decimal : List Char → ℕ → ℤ → Prop
  | mk {body whole fraction tail : List Char} {e : ℤ} (point : Pointed body whole fraction)
      (exponent : OptionalExponent tail e) :
      Decimal (body ++ tail) (digitsValue (whole ++ fraction)) (e - fraction.length)

/-- A word of small letters, each of which may also stand as its capital. -/
def InAnyCase (word cs : List Char) : Prop :=
  List.Forall₂ (fun letter c => c = letter ∨ c = letter.toUpper) word cs

/-- A numeral without a sign, and the numeral that it is under a sign that negates or not. -/
inductive Unsigned : List Char → (Bool → Numeral) → Prop
  | integer {cs : List Char} (digits : Digits cs) :
      Unsigned cs fun negative => .decimal negative (digitsValue cs) 0
  | decimal {cs : List Char} {m : ℕ} {e : ℤ} (decimal : Decimal cs m e) :
      Unsigned cs fun negative => .decimal negative m e
  | infinite {cs : List Char}
      (word : InAnyCase "inf".toList cs ∨ InAnyCase "infinity".toList cs) : Unsigned cs .infinite
  | notANumber {cs : List Char} (word : InAnyCase "nan".toList cs) :
      Unsigned cs fun _ => .notANumber

/-- A numeral with an optional sign before it. -/
inductive Spells : List Char → Numeral → Prop
  | mk {sign body : List Char} {negative : Bool} {meaning : Bool → Numeral}
      (signed : OptionalSign sign negative) (unsigned : Unsigned body meaning) :
      Spells (sign ++ body) (meaning negative)

/-! ### How numerals begin -/

/-- What does not begin with a sign. -/
def NoSign (cs : List Char) : Prop := ∀ c ∈ cs.head?, c ≠ '+' ∧ c ≠ '-'

/-- What begins with a digit or a point. -/
def BeginsNumber (cs : List Char) : Prop := ∃ c ∈ cs.head?, c.isDigit = true ∨ c = '.'

/-- What begins with the first letter of a word. -/
def BeginsWord (cs : List Char) : Prop :=
  ∃ c ∈ cs.head?, c = 'i' ∨ c = 'I' ∨ c = 'n' ∨ c = 'N'

/-- What begins with a character that is no sign has no sign. -/
theorem noSign_of_head {p : Char → Prop} {cs : List Char} (h : ∃ c ∈ cs.head?, p c)
    (hplus : ¬ p '+') (hminus : ¬ p '-') : NoSign cs := by
  obtain ⟨c, hc, hp⟩ := h
  intro d hd
  obtain rfl := Option.mem_unique hc hd
  constructor
  · rintro rfl
    exact hplus hp
  · rintro rfl
    exact hminus hp

theorem BeginsNumber.noSign {cs : List Char} (h : BeginsNumber cs) : NoSign cs :=
  noSign_of_head h (by decide) (by decide)

theorem BeginsWord.noSign {cs : List Char} (h : BeginsWord cs) : NoSign cs :=
  noSign_of_head h (by decide) (by decide)

/-- No text begins as a number and as a word. -/
theorem BeginsWord.not_beginsNumber {cs : List Char} (h : BeginsWord cs) : ¬ BeginsNumber cs := by
  obtain ⟨c, hc, hletter⟩ := h
  rintro ⟨d, hd, hkind⟩
  obtain rfl := Option.mem_unique hc hd
  rcases hletter with rfl | rfl | rfl | rfl <;> exact absurd hkind (by decide)

theorem Digits.beginsNumber {cs : List Char} (h : Digits cs) (rest : List Char) :
    BeginsNumber (cs ++ rest) := by
  obtain ⟨hne, hdigits⟩ := h
  cases cs with
  | nil => exact absurd rfl hne
  | cons c cs => exact ⟨c, rfl, .inl (hdigits c List.mem_cons_self)⟩

/-- A decimal numeral begins with a digit or with its point. -/
theorem Decimal.beginsNumber {cs : List Char} {m : ℕ} {e : ℤ} (h : Decimal cs m e) :
    BeginsNumber cs := by
  obtain ⟨point, -⟩ := h
  cases point with
  | whole digits => exact digits.beginsNumber _
  | trailing digits _ => rw [List.append_assoc]; exact digits.beginsNumber _
  | leading _ => exact ⟨'.', rfl, .inr rfl⟩

theorem InAnyCase.beginsWord {letter : Char} {word cs : List Char}
    (h : InAnyCase (letter :: word) cs) (hletter : letter = 'i' ∨ letter = 'n') :
    BeginsWord cs := by
  obtain ⟨c, rest, hc, -, rfl⟩ := List.forall₂_cons_left_iff.1 h
  refine ⟨c, rfl, ?_⟩
  rcases hletter with rfl | rfl <;> rcases hc with rfl | rfl <;> decide

theorem beginsWord_of_infinite {cs : List Char}
    (h : InAnyCase "inf".toList cs ∨ InAnyCase "infinity".toList cs) : BeginsWord cs :=
  h.elim (·.beginsWord (.inl rfl)) (·.beginsWord (.inl rfl))

theorem beginsWord_of_notANumber {cs : List Char} (h : InAnyCase "nan".toList cs) : BeginsWord cs :=
  h.beginsWord (.inr rfl)

/-! ### Signs -/

/-- The sign before what has none is taken off. -/
theorem OptionalSign.takeSign_append {sign body : List Char} {negative : Bool}
    (h : OptionalSign sign negative) (hbody : NoSign body) :
    takeSign (sign ++ body) = (negative, body) := by
  cases h with
  | plus => rfl
  | minus => rfl
  | absent =>
    rw [List.nil_append]
    unfold takeSign
    split
    · next cs => exact absurd rfl (hbody '-' rfl).2
    · next cs => exact absurd rfl (hbody '+' rfl).1
    · rfl

/-- What holds of both signs holds of the characters of a sign that may be left out. -/
theorem OptionalSign.forall_mem {p : Char → Prop} {sign : List Char} {negative : Bool}
    (h : OptionalSign sign negative) (hplus : p '+') (hminus : p '-') : ∀ c ∈ sign, p c := by
  cases h with
  | absent => exact List.forall_mem_nil _
  | plus => exact List.forall_mem_singleton.2 hplus
  | minus => exact List.forall_mem_singleton.2 hminus

/-- The sign that is taken off a text is one. -/
theorem exists_sign (cs : List Char) :
    ∃ sign, OptionalSign sign (takeSign cs).1 ∧ cs = sign ++ (takeSign cs).2 := by
  unfold takeSign
  split
  · exact ⟨['-'], .minus, rfl⟩
  · exact ⟨['+'], .plus, rfl⟩
  · exact ⟨[], .absent, rfl⟩

/-! ### The parts of a decimal numeral -/

theorem natural?_eq_some_iff {cs : List Char} {n : ℕ} :
    natural? cs = some n ↔ Digits cs ∧ digitsValue cs = n := by
  rw [natural?, Option.ite_none_right_eq_some, List.all_eq_true, Option.some.injEq, Digits]

theorem integer?_eq_some_iff {cs : List Char} {i : ℤ} :
    integer? cs = some i ↔ ∃ sign ds negative, OptionalSign sign negative ∧ Digits ds ∧
      cs = sign ++ ds ∧ signedInt negative (digitsValue ds) = i := by
  simp only [integer?, Option.map_eq_some_iff, natural?_eq_some_iff]
  constructor
  · rintro ⟨_, ⟨hdigits, rfl⟩, hvalue⟩
    obtain ⟨sign, hsign, hcs⟩ := exists_sign cs
    exact ⟨sign, _, _, hsign, hdigits, hcs, hvalue⟩
  · rintro ⟨sign, ds, negative, hsign, hdigits, rfl, hvalue⟩
    have hbody : NoSign ds := by simpa using (hdigits.beginsNumber []).noSign
    rw [hsign.takeSign_append hbody]
    exact ⟨_, ⟨hdigits, rfl⟩, hvalue⟩

/-- What follows the digits is read as an exponent exactly when it is an exponent part or nothing.
-/
theorem exponent?_eq_some_iff {cs : List Char} {e : ℤ} :
    exponent? cs = some e ↔ OptionalExponent cs e := by
  constructor
  · intro h
    cases cs with
    | nil =>
      obtain rfl := Option.some.inj h
      exact .absent
    | cons c cs =>
      obtain ⟨hletter, hinteger⟩ := Option.ite_none_right_eq_some.1 h
      obtain ⟨sign, ds, negative, hsign, hdigits, rfl, rfl⟩ := integer?_eq_some_iff.1 hinteger
      exact .present hletter hsign hdigits
  · intro h
    cases h with
    | absent => rfl
    | present hletter hsign hdigits =>
      rw [exponent?, if_pos hletter]
      exact integer?_eq_some_iff.2 ⟨_, _, _, hsign, hdigits, rfl, rfl⟩

/-- The exponent part goes on with no digit and with no point. -/
theorem OptionalExponent.head {cs : List Char} {e : ℤ} (h : OptionalExponent cs e) :
    ∀ c ∈ cs.head?, c.isDigit = false ∧ c ≠ '.' := by
  cases h with
  | absent => intro c hc; cases hc
  | present hletter _ _ =>
    intro c hc
    obtain rfl := Option.some.inj hc
    rcases hletter with rfl | rfl <;> decide

theorem leadingDigits_append_afterDigits (cs : List Char) :
    leadingDigits cs ++ afterDigits cs = cs := List.takeWhile_append_dropWhile

theorem isDigit_of_mem_leadingDigits {cs : List Char} : ∀ c ∈ leadingDigits cs, c.isDigit = true :=
  fun _ => List.mem_takeWhile_imp

/-- What is read as a decimal numeral is one. The cases are those of the point. -/
theorem decimal_of_decimal? {cs : List Char} {m : ℕ} {e : ℤ} (h : decimal? cs = some (m, e)) :
    Decimal cs m e := by
  have hcs := leadingDigits_append_afterDigits cs
  have hwhole : ∀ c ∈ leadingDigits cs, c.isDigit = true := isDigit_of_mem_leadingDigits
  unfold decimal? at h
  split at h
  · next rest hrest =>
    have hsplit := leadingDigits_append_afterDigits rest
    have hfraction : ∀ c ∈ leadingDigits rest, c.isDigit = true := isDigit_of_mem_leadingDigits
    obtain ⟨hdigits, hread⟩ := Option.ite_none_left_eq_some.1 h
    obtain ⟨x, hexponent, hpair⟩ := Option.map_eq_some_iff.1 hread
    obtain ⟨rfl, rfl⟩ := Prod.mk.inj hpair
    rw [exponent?_eq_some_iff] at hexponent
    rw [hrest, ← hsplit] at hcs
    by_cases hempty : leadingDigits cs = []
    · have hdigit : Digits (leadingDigits rest) := ⟨fun hnone => hdigits ⟨hempty, hnone⟩, hfraction⟩
      have hwritten := Decimal.mk (.leading hdigit) hexponent
      rw [hempty] at hcs ⊢
      rwa [List.cons_append, ← List.nil_append ('.' :: _), hcs] at hwritten
    · have hwritten := Decimal.mk (.trailing ⟨hempty, hwhole⟩ hfraction) hexponent
      rwa [List.append_assoc, List.cons_append, hcs] at hwritten
  · obtain ⟨hdigits, hread⟩ := Option.ite_none_left_eq_some.1 h
    obtain ⟨x, hexponent, hpair⟩ := Option.map_eq_some_iff.1 hread
    obtain ⟨rfl, rfl⟩ := Prod.mk.inj hpair
    have hwritten := Decimal.mk (.whole ⟨hdigits, hwhole⟩) (exponent?_eq_some_iff.1 hexponent)
    rwa [hcs, List.append_nil, List.length_nil, Int.natCast_zero, Int.sub_zero] at hwritten

/-- A decimal numeral with a point is read from the point to both sides. -/
theorem decimal?_of_point {tail ds fs : List Char} {e : ℤ} (hds : ∀ c ∈ ds, c.isDigit = true)
    (hfs : ∀ c ∈ fs, c.isDigit = true) (hsome : ¬ (ds = [] ∧ fs = []))
    (hexponent : OptionalExponent tail e) :
    decimal? (ds ++ '.' :: fs ++ tail) = some (digitsValue (ds ++ fs), e - fs.length) := by
  have htail : EndsDigits tail := fun c hc => (hexponent.head c hc).1
  have hpoint : EndsDigits ('.' :: (fs ++ tail)) := by
    intro c hc
    obtain rfl := Option.some.inj hc
    rfl
  rw [List.append_assoc, List.cons_append]
  simp only [decimal?, leadingDigits_append hds hpoint, afterDigits_append hds hpoint,
    leadingDigits_append hfs htail, afterDigits_append hfs htail, if_neg hsome,
    exponent?_eq_some_iff.2 hexponent, Option.map_some]

/-- Every decimal numeral is read. -/
theorem decimal?_of_decimal {cs : List Char} {m : ℕ} {e : ℤ} (h : Decimal cs m e) :
    decimal? cs = some (m, e) := by
  obtain ⟨point, hexponent⟩ := h
  rename_i body whole fraction tail x
  cases point with
  | whole digits =>
    have htail : EndsDigits tail := fun c hc => (hexponent.head c hc).1
    simp only [decimal?, leadingDigits_append digits.2 htail, afterDigits_append digits.2 htail]
    split
    · next rest => exact absurd rfl (hexponent.head '.' rfl).2
    · rw [if_neg digits.1, exponent?_eq_some_iff.2 hexponent, List.append_nil, List.length_nil,
        Int.natCast_zero, Int.sub_zero, Option.map_some]
  | trailing digits hfraction =>
    exact decimal?_of_point digits.2 hfraction (fun hnone => digits.1 hnone.1) hexponent
  | leading digits =>
    exact decimal?_of_point (List.forall_mem_nil _) digits.2 (fun hnone => digits.1 hnone.2)
      hexponent

/-- **A text is read as a decimal numeral** exactly when it is one. -/
theorem decimal?_eq_some_iff {cs : List Char} {m : ℕ} {e : ℤ} :
    decimal? cs = some (m, e) ↔ Decimal cs m e :=
  ⟨decimal_of_decimal?, decimal?_of_decimal⟩

/-- Digits alone are a decimal numeral as well, and denote the same. -/
theorem Digits.decimal {cs : List Char} (h : Digits cs) : Decimal cs (digitsValue cs) 0 := by
  have hwritten := Decimal.mk (.whole h) .absent
  simpa only [List.append_nil, List.length_nil, Int.natCast_zero, Int.sub_zero] using hwritten

theorem Digits.decimal_point {cs : List Char} (h : Digits cs) :
    Decimal (cs ++ ['.']) (digitsValue cs) 0 := by
  have hwritten := Decimal.mk (.trailing h (List.forall_mem_nil _)) .absent
  simpa only [List.append_nil, List.length_nil, Int.natCast_zero, Int.sub_zero] using hwritten

theorem Digits.decimal_exponent {cs : List Char} (h : Digits cs) :
    Decimal (cs ++ ['e', '0']) (digitsValue cs) 0 := by
  have hzero : OptionalExponent ['e', '0'] 0 :=
    .present (.inl rfl) .absent ⟨List.cons_ne_nil _ _, List.forall_mem_singleton.2 rfl⟩
  have hwritten := Decimal.mk (.whole h) hzero
  simpa only [List.append_nil, List.length_nil, Int.natCast_zero, Int.sub_zero] using hwritten

/-! ### Words -/

theorem inAnyCase_iff {word cs : List Char} (h : word.all Char.isLower = true) :
    InAnyCase word cs ↔ cs.map Char.toLower = word := by
  unfold InAnyCase
  rw [List.all_eq_true] at h
  induction word generalizing cs with
  | nil => simp
  | cons letter word ih =>
    have hletter := h letter List.mem_cons_self
    cases cs with
    | nil => simp
    | cons c cs =>
      rw [List.forall₂_cons, List.map_cons, List.cons.injEq, Text.toLower_eq_iff hletter,
        ih fun l hl => h l (List.mem_cons_of_mem _ hl)]

/-- The word that a text is in some letter case is one of three. -/
theorem lookup_wordNumerals_iff {cs : List Char} {meaning : Bool → Numeral} :
    wordNumerals.lookup (cs.map Char.toLower) = some meaning ↔
      ((InAnyCase "inf".toList cs ∨ InAnyCase "infinity".toList cs) ∧ meaning = .infinite) ∨
      (InAnyCase "nan".toList cs ∧ meaning = fun _ => .notANumber) := by
  rw [inAnyCase_iff (by decide), inAnyCase_iff (by decide), inAnyCase_iff (by decide)]
  generalize cs.map Char.toLower = word
  unfold wordNumerals
  simp only [List.lookup_cons, List.lookup_nil]
  constructor
  · intro h
    split at h
    · next hword => exact .inl ⟨.inl (eq_of_beq hword), (Option.some.inj h).symm⟩
    · split at h
      · next hword => exact .inl ⟨.inr (eq_of_beq hword), (Option.some.inj h).symm⟩
      · split at h
        · next hword => exact .inr ⟨eq_of_beq hword, (Option.some.inj h).symm⟩
        · cases h
  · rintro (⟨rfl | rfl, rfl⟩ | ⟨rfl, rfl⟩) <;> rfl

/-! ### Numerals -/

theorem Unsigned.begins {cs : List Char} {meaning : Bool → Numeral} (h : Unsigned cs meaning) :
    BeginsNumber cs ∨ BeginsWord cs := by
  cases h with
  | integer digits => exact .inl digits.decimal.beginsNumber
  | decimal decimal => exact .inl decimal.beginsNumber
  | infinite word => exact .inr (beginsWord_of_infinite word)
  | notANumber word => exact .inr (beginsWord_of_notANumber word)

theorem Unsigned.noSign {cs : List Char} {meaning : Bool → Numeral} (h : Unsigned cs meaning) :
    NoSign cs := h.begins.elim BeginsNumber.noSign BeginsWord.noSign

theorem natural?_of_beginsWord {cs : List Char} (h : BeginsWord cs) : natural? cs = none :=
  Option.eq_none_iff_forall_ne_some.2 fun _ hn =>
    h.not_beginsNumber (natural?_eq_some_iff.1 hn).1.decimal.beginsNumber

theorem decimal?_of_beginsWord {cs : List Char} (h : BeginsWord cs) : decimal? cs = none :=
  Option.eq_none_iff_forall_ne_some.2 fun _ hread =>
    h.not_beginsNumber (decimal?_eq_some_iff.1 hread).beginsNumber

/-- The three readings of what follows the sign, tried in turn, give what the grammar derives.
Digits alone have two derivations, with one meaning. -/
theorem readings_eq_some_iff {cs : List Char} {negative : Bool} {n : Numeral} :
    ((natural? cs).map (.decimal negative · 0) <|>
      (decimal? cs).map (fun (m, e) => .decimal negative m e) <|>
      (wordNumerals.lookup (cs.map Char.toLower)).map (· negative)) = some n ↔
    ∃ meaning, Unsigned cs meaning ∧ meaning negative = n := by
  simp only [Option.orElse_eq_some, Option.map_eq_some_iff, Option.map_eq_none_iff]
  constructor
  · rintro (⟨k, hread, rfl⟩ | ⟨-, ⟨⟨m, e⟩, hread, rfl⟩ | ⟨-, meaning, hread, rfl⟩⟩)
    · obtain ⟨hdigits, rfl⟩ := natural?_eq_some_iff.1 hread
      exact ⟨_, .integer hdigits, rfl⟩
    · exact ⟨_, .decimal (decimal?_eq_some_iff.1 hread), rfl⟩
    · rcases lookup_wordNumerals_iff.1 hread with ⟨hword, rfl⟩ | ⟨hword, rfl⟩
      · exact ⟨_, .infinite hword, rfl⟩
      · exact ⟨_, .notANumber hword, rfl⟩
  · rintro ⟨meaning, hunsigned, rfl⟩
    cases hunsigned with
    | integer hdigits => exact .inl ⟨_, natural?_eq_some_iff.2 ⟨hdigits, rfl⟩, rfl⟩
    | decimal hdecimal =>
      have hread := decimal?_eq_some_iff.2 hdecimal
      cases hnatural : natural? cs with
      | none => exact .inr ⟨rfl, .inl ⟨_, hread, rfl⟩⟩
      | some k =>
        obtain ⟨hdigits, rfl⟩ := natural?_eq_some_iff.1 hnatural
        rw [decimal?_eq_some_iff.2 hdigits.decimal] at hread
        obtain ⟨rfl, rfl⟩ := Prod.mk.inj (Option.some.inj hread)
        exact .inl ⟨_, rfl, rfl⟩
    | infinite hword =>
      have hletter := beginsWord_of_infinite hword
      exact .inr ⟨natural?_of_beginsWord hletter, .inr ⟨decimal?_of_beginsWord hletter,
        _, lookup_wordNumerals_iff.2 (.inl ⟨hword, rfl⟩), rfl⟩⟩
    | notANumber hword =>
      have hletter := beginsWord_of_notANumber hword
      exact .inr ⟨natural?_of_beginsWord hletter, .inr ⟨decimal?_of_beginsWord hletter,
        _, lookup_wordNumerals_iff.2 (.inr ⟨hword, rfl⟩), rfl⟩⟩

/-- **A text is read as a numeral** exactly when the grammar derives it as this numeral. -/
theorem numeral?_eq_some_iff {cs : List Char} {n : Numeral} :
    numeral? cs = some n ↔ Spells cs n := by
  unfold numeral?
  rw [readings_eq_some_iff]
  constructor
  · rintro ⟨meaning, hunsigned, rfl⟩
    obtain ⟨sign, hsign, hcs⟩ := exists_sign cs
    have hspelled := Spells.mk hsign hunsigned
    rwa [← hcs] at hspelled
  · rintro ⟨hsign, hunsigned⟩
    rw [hsign.takeSign_append hunsigned.noSign]
    exact ⟨_, hunsigned, rfl⟩

/-! ### What changes nothing, and what negates -/

/-- A numeral that begins with no sign has none. -/
theorem Spells.unsigned {cs : List Char} {n : Numeral} (h : Spells cs n) (hsign : NoSign cs) :
    ∃ meaning, Unsigned cs meaning ∧ meaning false = n := by
  obtain ⟨hsigned, hunsigned⟩ := h
  cases hsigned with
  | absent => exact ⟨_, hunsigned, rfl⟩
  | plus => exact absurd rfl (hsign '+' rfl).1
  | minus => exact absurd rfl (hsign '-' rfl).2

/-- The sign negates the value, that of zero and of infinity as well. -/
theorem Unsigned.value_negated {cs : List Char} {meaning : Bool → Numeral} (h : Unsigned cs meaning) :
    (meaning true).value = -(meaning false).value := by
  cases h with
  | integer _ => rfl
  | decimal _ => rfl
  | infinite _ => rfl
  | notANumber _ => decide +kernel

/-- The zeros stand before the point, so they change neither the significand nor the exponent. -/
theorem Decimal.zeros {cs : List Char} {m : ℕ} {e : ℤ} (h : Decimal cs m e) (k : ℕ) :
    Decimal (List.replicate k '0' ++ cs) m e := by
  have hzeros : ∀ c ∈ List.replicate k '0', c.isDigit = true := by
    intro c hc
    obtain rfl := List.eq_of_mem_replicate hc
    rfl
  cases k with
  | zero => exact h
  | succ k =>
    obtain ⟨point, hexponent⟩ := h
    rename_i body whole fraction tail x
    have hpoint : Pointed (List.replicate (k + 1) '0' ++ body) (List.replicate (k + 1) '0' ++ whole)
        fraction := by
      cases point with
      | whole digits =>
        exact .whole ⟨by simp, List.forall_mem_append.2 ⟨hzeros, digits.2⟩⟩
      | trailing digits hfraction =>
        rw [← List.append_assoc]
        exact .trailing ⟨by simp, List.forall_mem_append.2 ⟨hzeros, digits.2⟩⟩ hfraction
      | leading digits =>
        rw [List.append_nil]
        exact .trailing ⟨by simp, hzeros⟩ digits.2
    have hwritten := Decimal.mk hpoint hexponent
    rwa [List.append_assoc, List.append_assoc, digitsValue_zeros_append] at hwritten

/-- Zeros before a decimal numeral without a sign change nothing. -/
theorem Unsigned.zeros {cs : List Char} {meaning : Bool → Numeral} (h : Unsigned cs meaning)
    (hnumber : BeginsNumber cs) (k : ℕ) : Unsigned (List.replicate k '0' ++ cs) meaning := by
  cases h with
  | integer digits => exact .decimal (digits.decimal.zeros k)
  | decimal decimal => exact .decimal (decimal.zeros k)
  | infinite word => exact absurd hnumber (beginsWord_of_infinite word).not_beginsNumber
  | notANumber word => exact absurd hnumber (beginsWord_of_notANumber word).not_beginsNumber

end Framewise.Number
