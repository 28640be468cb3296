import Framewise.Text.Utf8

/-!
# What bytes say in UTF-8

`Utf8.decode` reads bytes one at a time and holds unfinished sequences back. This file states
what a byte sequence says without any of that machinery, from the forms of the characters alone:

* where the form of a character stands, that character is read;
* where none stands, the *maximal ill-formed part* is one replacement character: the longest
  beginning of a form, or one byte if no form begins there.

`Reads` is this relation, and the decoder is its only solution:

    reads_iff : Reads bytes cs ↔ cs = decode bytes

So a text is read back from its bytes (`decode_encode`), and what a decoder holds back at the end is
no character (`Decoder.Open.finish`).

The forms themselves are those of core, `String.utf8EncodeChar`. `isForm_iff` tells them from their
bytes, in the words of the decoder.
-/

namespace Framewise.Text.Utf8

/-! ### Bytes as numbers -/

theorem isContinuation_iff (b : UInt8) :
    isContinuation b = true ↔ 0x80 ≤ b.toNat ∧ b.toNat < 0xC0 := by
  simp [isContinuation, UInt8.le_iff_toNat_le, UInt8.lt_iff_toNat_lt]

theorem announced_eq (b : UInt8) :
    announced b = if b.toNat < 0xC0 then 1 else if b.toNat < 0xE0 then 2
      else if b.toNat < 0xF0 then 3 else if b.toNat < 0xF8 then 4 else 1 := by
  simp [announced, UInt8.lt_iff_toNat_lt]

/-- The second bytes that a lead byte allows. -/
theorem admits_iff (lead second : UInt8) :
    admits lead second = true ↔
      0xC2 ≤ lead.toNat ∧ lead.toNat ≤ 0xF4 ∧
        (lead.toNat = 0xE0 → 0xA0 ≤ second.toNat) ∧ (lead.toNat = 0xED → second.toNat < 0xA0) ∧
        (lead.toNat = 0xF0 → 0x90 ≤ second.toNat) ∧ (lead.toNat = 0xF4 → second.toNat < 0x90) := by
  have heq : ∀ k : UInt8, (lead == k) = decide (lead.toNat = k.toNat) := by
    intro k
    rw [Bool.eq_iff_iff]
    simp [UInt8.toNat_inj]
  simp only [admits, heq, Bool.or_eq_true, decide_eq_true_eq, UInt8.lt_iff_toNat_lt,
    UInt8.le_iff_toNat_le]
  split
  · next h => simp at h ⊢; omega
  · next h =>
    split
    · next h1 => simp at h h1 ⊢; omega
    · split
      · next h1 => simp at h h1 ⊢; omega
      · split
        · next h1 => simp at h h1 ⊢; omega
        · split
          · next h1 => simp at h h1 ⊢; omega
          · next h1 h2 h3 h4 => simp at h h1 h2 h3 h4 ⊢; omega

theorem announced_pos (b : UInt8) : 1 ≤ announced b := by
  rw [announced_eq]
  grind

theorem announced_le (b : UInt8) : announced b ≤ 4 := by
  rw [announced_eq]
  grind

theorem announced_eq_two_iff (b : UInt8) :
    announced b = 2 ↔ 0xC0 ≤ b.toNat ∧ b.toNat < 0xE0 := by
  rw [announced_eq]
  grind

theorem announced_eq_three_iff (b : UInt8) :
    announced b = 3 ↔ 0xE0 ≤ b.toNat ∧ b.toNat < 0xF0 := by
  rw [announced_eq]
  grind

theorem announced_eq_four_iff (b : UInt8) :
    announced b = 4 ↔ 0xF0 ≤ b.toNat ∧ b.toNat < 0xF8 := by
  rw [announced_eq]
  grind

/-! ### The forms of characters -/

/-- The form of a character, told from its bytes: one byte of the lower half, or a lead byte, a
second byte that it allows, and as many continuation bytes as it announces. -/
def IsForm : List UInt8 → Prop
  | [] => False
  | [b] => b.toNat < 0x80
  | lead :: second :: more =>
    announced lead = more.length + 2 ∧ admits lead second = true ∧
      ∀ b ∈ second :: more, isContinuation b = true

/-- The bytes of a code point, by the table of UTF-8. -/
def Encodes (n : Nat) : List UInt8 → Prop
  | [a] => n < 0x80 ∧ a.toNat = n
  | [a, b] => 0x80 ≤ n ∧ n < 0x800 ∧ a.toNat = n / 64 + 0xC0 ∧ b.toNat = n % 64 + 0x80
  | [a, b, c] =>
    0x800 ≤ n ∧ n < 0x10000 ∧ a.toNat = n / 4096 + 0xE0 ∧ b.toNat = n / 64 % 64 + 0x80 ∧
      c.toNat = n % 64 + 0x80
  | [a, b, c, d] =>
    0x10000 ≤ n ∧ n < 0x110000 ∧ a.toNat = n / 262144 + 0xF0 ∧ b.toNat = n / 4096 % 64 + 0x80 ∧
      c.toNat = n / 64 % 64 + 0x80 ∧ d.toNat = n % 64 + 0x80
  | _ => False

theorem toNat_charOfNat {n : Nat} (h : n.isValidChar) : (Char.ofNat n).toNat = n := by
  rw [Char.ofNat, dif_pos h]
  show (UInt32.ofNatLT n _).toNat = n
  simp

/-- A byte of which the number is known to fit. -/
theorem toNat_ofNat {n m : Nat} (h : n = m) (hm : m < 0x100) : (UInt8.ofNat n).toNat = m := by
  rw [h, UInt8.toNat_ofNat', Nat.mod_eq_of_lt hm]

/-- Core writes characters by this table. -/
theorem encodes_encodeChar (c : Char) : Encodes c.toNat (String.utf8EncodeChar c) := by
  obtain ⟨n, hn⟩ : ∃ n, c.val.toNat = n := ⟨_, rfl⟩
  have hvalid : n < 0xD800 ∨ 0xDFFF < n ∧ n < 0x110000 := hn ▸ c.valid
  rw [show c.toNat = n from hn]
  simp only [String.utf8EncodeChar, hn]
  split
  · exact ⟨by omega, toNat_ofNat rfl (by omega)⟩
  · split
    · refine ⟨by omega, by omega, ?_, ?_⟩
      · exact toNat_ofNat (by omega) (by omega)
      · exact toNat_ofNat (by omega) (by omega)
    · split
      · refine ⟨by omega, by omega, ?_, ?_, ?_⟩
        · exact toNat_ofNat (by omega) (by omega)
        · exact toNat_ofNat (by omega) (by omega)
        · exact toNat_ofNat (by omega) (by omega)
      · refine ⟨by omega, by omega, ?_, ?_, ?_, ?_⟩
        · exact toNat_ofNat (by omega) (by omega)
        · exact toNat_ofNat (by omega) (by omega)
        · exact toNat_ofNat (by omega) (by omega)
        · exact toNat_ofNat (by omega) (by omega)

/-- A code point has one row of bytes. -/
theorem Encodes.unique {n : Nat} {as bs : List UInt8} (ha : Encodes n as) (hb : Encodes n bs) :
    as = bs := by
  unfold Encodes at ha hb
  split at ha <;> split at hb <;> grind [UInt8.toNat_inj]

/-- Bytes stand for one code point. -/
theorem Encodes.point_unique {n m : Nat} {bs : List UInt8} (hn : Encodes n bs)
    (hm : Encodes m bs) : n = m := by
  unfold Encodes at hn hm
  split at hn <;> simp only at hm <;> omega

/-- What a form of two bytes or more announces is where its row of the table stands. -/
theorem encodes_codePoint {lead second : UInt8} {more : List UInt8}
    (h : IsForm (lead :: second :: more)) :
    (codePoint lead (second :: more)).isValidChar ∧
      Encodes (codePoint lead (second :: more)) (lead :: second :: more) := by
  obtain ⟨hlen, hadm, hcont⟩ := h
  have hadm := (admits_iff lead second).1 hadm
  simp only [List.forall_mem_cons, isContinuation_iff] at hcont
  unfold Nat.isValidChar
  match more with
  | [] =>
    have hlead := (announced_eq_two_iff lead).1 hlen
    simp only [Encodes, codePoint, List.length_cons, List.length_nil, List.foldl_cons,
      List.foldl_nil]
    omega
  | [c] =>
    have hlead := (announced_eq_three_iff lead).1 hlen
    simp only [List.forall_mem_cons] at hcont
    simp only [Encodes, codePoint, List.length_cons, List.length_nil, List.foldl_cons,
      List.foldl_nil]
    omega
  | [c, d] =>
    have hlead := (announced_eq_four_iff lead).1 hlen
    simp only [List.forall_mem_cons] at hcont
    simp only [Encodes, codePoint, List.length_cons, List.length_nil, List.foldl_cons,
      List.foldl_nil]
    omega
  | _ :: _ :: _ :: more =>
    have hle := announced_le lead
    simp only [List.length_cons] at hlen
    omega

/-- The rows are told apart by their bytes, and the decoder reads them as their code points. -/
theorem encodes_of_isForm {bs : List UInt8} (h : IsForm bs) :
    ∃ n, n.isValidChar ∧ Encodes n bs ∧ readSequence bs = [Char.ofNat n] := by
  match bs, h with
  | [a], h =>
    have ha : a.toNat < 0x80 := h
    refine ⟨a.toNat, Or.inl (by omega), ⟨ha, rfl⟩, ?_⟩
    rw [readSequence, if_pos (UInt8.lt_iff_toNat_lt.2 ha)]
  | lead :: second :: more, h =>
    obtain ⟨hvalid, hrow⟩ := encodes_codePoint h
    refine ⟨_, hvalid, hrow, ?_⟩
    simp [readSequence, h.1, h.2.1]

theorem isForm_of_encodes {n : Nat} {bs : List UInt8} (hn : n.isValidChar)
    (h : Encodes n bs) : IsForm bs := by
  unfold Encodes at h
  split at h
  · exact show _ < 0x80 by omega
  · next a b =>
    refine ⟨(announced_eq_two_iff a).2 (by omega), (admits_iff a b).2 (by omega), ?_⟩
    simp only [List.mem_singleton, forall_eq, isContinuation_iff]
    omega
  · next a b c =>
    have hn : n < 0xD800 ∨ 0xDFFF < n ∧ n < 0x110000 := hn
    refine ⟨(announced_eq_three_iff a).2 (by omega), (admits_iff a b).2 (by omega), ?_⟩
    simp only [List.mem_cons, List.not_mem_nil, or_false, forall_eq_or_imp, forall_eq,
      isContinuation_iff]
    omega
  · next a b c d =>
    refine ⟨(announced_eq_four_iff a).2 (by omega), (admits_iff a b).2 (by omega), ?_⟩
    simp only [List.mem_cons, List.not_mem_nil, or_false, forall_eq_or_imp, forall_eq,
      isContinuation_iff]
    omega
  · exact h.elim

/-- **The forms are those of the characters.** -/
theorem isForm_iff (bs : List UInt8) :
    IsForm bs ↔ ∃ c, String.utf8EncodeChar c = bs ∧ readSequence bs = [c] := by
  constructor
  · intro h
    obtain ⟨n, hn, hrow, hread⟩ := encodes_of_isForm h
    refine ⟨Char.ofNat n, ?_, hread⟩
    have hchar := encodes_encodeChar (Char.ofNat n)
    rw [toNat_charOfNat hn] at hchar
    exact hchar.unique hrow
  · rintro ⟨c, rfl, -⟩
    exact isForm_of_encodes c.valid (encodes_encodeChar c)

/-! ### Beginnings of forms -/

/-- Bytes with which the form of some character begins. -/
def Begins (bs : List UInt8) : Prop := ∃ c, bs <+: String.utf8EncodeChar c

theorem isForm_encodeChar (c : Char) : IsForm (String.utf8EncodeChar c) :=
  isForm_of_encodes c.valid (encodes_encodeChar c)

/-- A form has as many bytes as its lead byte announces, and goes on with continuation bytes. -/
theorem IsForm.cons {lead : UInt8} {more : List UInt8} (h : IsForm (lead :: more)) :
    more.length + 1 = announced lead ∧ (∀ b ∈ more, isContinuation b = true) ∧
      ∀ b ∈ more.head?, admits lead b = true := by
  match more with
  | [] =>
    have hlead : lead.toNat < 0x80 := h
    refine ⟨?_, by simp, by simp⟩
    rw [announced_eq, if_pos (by omega)]
    rfl
  | second :: more => exact ⟨h.1.symm, h.2.2, by simpa using h.2.1⟩

theorem Begins.cons {lead : UInt8} {more : List UInt8} (h : Begins (lead :: more)) :
    more.length + 1 ≤ announced lead ∧ (∀ b ∈ more, isContinuation b = true) ∧
      ∀ b ∈ more.head?, admits lead b = true := by
  obtain ⟨c, rest, hc⟩ := h
  have hform : IsForm (lead :: (more ++ rest)) := by
    rw [← List.cons_append, hc]
    exact isForm_encodeChar c
  obtain ⟨hlen, hcont, hadm⟩ := hform.cons
  rw [List.length_append] at hlen
  refine ⟨by omega, fun b hb => hcont b (List.mem_append_left _ hb), fun b hb => hadm b ?_⟩
  rw [List.head?_append]
  simp [Option.mem_def.1 hb]

/-- A lead byte and continuation bytes that it allows can be completed. -/
theorem begins_of_admits {lead second : UInt8} {more : List UInt8}
    (hlen : more.length + 2 ≤ announced lead) (hadm : admits lead second = true)
    (hcont : ∀ b ∈ second :: more, isContinuation b = true) : Begins (lead :: second :: more) := by
  have hform : IsForm (lead :: second ::
      (more ++ List.replicate (announced lead - (more.length + 2)) 0x80)) := by
    refine ⟨by simp only [List.length_append, List.length_replicate]; omega, hadm, ?_⟩
    intro b hb
    rw [← List.cons_append, List.mem_append] at hb
    rcases hb with hb | hb
    · exact hcont b hb
    · rw [List.eq_of_mem_replicate hb]
      rfl
  obtain ⟨c, hc, -⟩ := (isForm_iff _).1 hform
  exact ⟨c, _, hc.symm⟩

/-! ### Readings -/

/-- `part` is the maximal ill-formed part at the beginning of `part ++ rest`. -/
structure IllFormed (part rest : List UInt8) : Prop where
  ne_nil : part ≠ []
  no_char : ∀ c, ¬ String.utf8EncodeChar c <+: part ++ rest
  begins : Begins part ∨ part.length = 1
  maximal : ∀ longer, longer <+: part ++ rest → Begins longer → longer.length ≤ part.length

/-- What bytes say. -/
inductive Reads : List UInt8 → List Char → Prop
  | nil : Reads [] []
  | char (c : Char) {bs cs} : Reads bs cs → Reads (String.utf8EncodeChar c ++ bs) (c :: cs)
  | illFormed {part rest cs} : IllFormed part rest → Reads rest cs →
      Reads (part ++ rest) (replacement :: cs)

/-! ### Bytes say one thing -/

theorem readSequence_encodeChar (c : Char) : readSequence (String.utf8EncodeChar c) = [c] := by
  obtain ⟨n, -, hrow, hread⟩ := encodes_of_isForm (isForm_encodeChar c)
  rw [hread, hrow.point_unique (encodes_encodeChar c), Char.ofNat_toNat]

theorem encodeChar_ne_nil (c : Char) : String.utf8EncodeChar c ≠ [] := by
  intro h
  have hform := isForm_encodeChar c
  rw [h] at hform
  exact hform

/-- Two forms at one place are the same. -/
theorem encodeChar_prefix {c d : Char} {as bs : List UInt8}
    (h : String.utf8EncodeChar c ++ as = String.utf8EncodeChar d ++ bs) : c = d ∧ as = bs := by
  have hlen : (String.utf8EncodeChar c).length = (String.utf8EncodeChar d).length := by
    match hc : String.utf8EncodeChar c, hd : String.utf8EncodeChar d with
    | [], _ => exact absurd hc (encodeChar_ne_nil c)
    | _, [] => exact absurd hd (encodeChar_ne_nil d)
    | a :: more, b :: others =>
      rw [hc, hd, List.cons_append, List.cons_append] at h
      have hab : a = b := (List.cons.inj h).1
      have h1 := (hc ▸ isForm_encodeChar c : IsForm (a :: more)).cons.1
      have h2 := (hd ▸ isForm_encodeChar d : IsForm (b :: others)).cons.1
      rw [List.length_cons, List.length_cons, h1, h2, hab]
  obtain ⟨hforms, hrest⟩ := List.append_inj h hlen
  have hread := readSequence_encodeChar c
  rw [hforms, readSequence_encodeChar d] at hread
  exact ⟨(List.cons.inj hread).1.symm, hrest⟩

/-- Two ill-formed parts at one place are the same. -/
theorem IllFormed.unique {part part' rest rest' : List UInt8} (h : IllFormed part rest)
    (h' : IllFormed part' rest') (heq : part ++ rest = part' ++ rest') :
    part = part' ∧ rest = rest' := by
  have hle : ∀ {p p' r r' : List UInt8}, IllFormed p r → IllFormed p' r' → p ++ r = p' ++ r' →
      p.length ≤ p'.length := by
    intro p p' r r' hp hp' he
    rcases hp.begins with hb | hone
    · exact hp'.maximal p (he ▸ List.prefix_append p r) hb
    · rw [hone]
      exact List.length_pos_iff.2 hp'.ne_nil
  exact List.append_inj heq (Nat.le_antisymm (hle h h' heq) (hle h' h heq.symm))

/-- Bytes say one thing. -/
theorem Reads.unique {bs : List UInt8} {cs cs' : List Char} (h : Reads bs cs)
    (h' : Reads bs cs') : cs = cs' := by
  induction h generalizing cs' with
  | nil =>
    generalize hbs : ([] : List UInt8) = bs at h'
    cases h' with
    | nil => rfl
    | char c _ => exact absurd (List.append_eq_nil_iff.1 hbs.symm).1 (encodeChar_ne_nil c)
    | illFormed hill _ => exact absurd (List.append_eq_nil_iff.1 hbs.symm).1 hill.ne_nil
  | @char c bs cs _ ih =>
    generalize hbs : String.utf8EncodeChar c ++ bs = all at h'
    cases h' with
    | nil => exact absurd (List.append_eq_nil_iff.1 hbs).1 (encodeChar_ne_nil c)
    | char d hd =>
      obtain ⟨rfl, rfl⟩ := encodeChar_prefix hbs
      rw [ih hd]
    | illFormed hill _ => exact absurd ⟨bs, hbs⟩ (hill.no_char c)
  | @illFormed part rest cs hill _ ih =>
    generalize hbs : part ++ rest = all at h'
    cases h' with
    | nil => exact absurd (List.append_eq_nil_iff.1 hbs).1 hill.ne_nil
    | @char d bs cs _ => exact absurd ⟨bs, hbs.symm⟩ (hill.no_char d)
    | illFormed hill' hrest =>
      obtain ⟨rfl, rfl⟩ := hill.unique hill' hbs
      rw [ih hrest]

/-! ### The decoder reads what bytes say -/

/-- A sequence ends here: the input does, or a byte follows that goes on with none. -/
def Ends (rest : List UInt8) : Prop := ∀ b ∈ rest.head?, isContinuation b = false

/-- No form begins beyond a place where sequences end. -/
theorem length_le_of_ends {lead : UInt8} {more rest longer : List UInt8} (hends : Ends rest)
    (hpre : longer <+: (lead :: more) ++ rest) (h : Begins longer) :
    longer.length ≤ (lead :: more).length := by
  obtain ⟨after, hafter⟩ := hpre
  rcases List.append_eq_append_iff.1 hafter with ⟨a, ha, -⟩ | ⟨a, ha, hrest⟩
  · rw [ha, List.length_append]
    omega
  · match a with
    | [] => simp [ha]
    | b :: a =>
      rw [ha, List.cons_append] at h
      have hb := h.cons.2.1 b (by simp)
      rw [hrest] at hends
      rw [hends b rfl] at hb
      exact absurd hb (by simp)

/-- A sequence that ends before it is complete is one ill-formed part. -/
theorem illFormed_of_ends {lead : UInt8} {more rest : List UInt8} (hends : Ends rest)
    (hlen : more.length + 1 < announced lead)
    (hbegins : Begins (lead :: more) ∨ (lead :: more).length = 1) :
    IllFormed (lead :: more) rest where
  ne_nil := by simp
  no_char c hc := by
    have hle := length_le_of_ends hends hc ⟨c, List.prefix_rfl⟩
    match hform : String.utf8EncodeChar c with
    | [] => exact encodeChar_ne_nil c hform
    | a :: others =>
      rw [hform] at hc hle
      have ha : a = lead := (List.cons_prefix_cons.1 hc).1
      have hlen' := (hform ▸ isForm_encodeChar c : IsForm (a :: others)).cons.1
      rw [ha] at hlen'
      simp only [List.length_cons] at hle
      omega
  begins := hbegins
  maximal longer hpre hb := length_le_of_ends hends hpre hb

theorem Begins.of_prefix {part bs : List UInt8} (h : Begins bs) (hpre : part <+: bs) :
    Begins part := by
  obtain ⟨c, hc⟩ := h
  exact ⟨c, hpre.trans hc⟩

/-- A byte that is no character and with which no form goes on is an ill-formed part. -/
theorem illFormed_singleton {b : UInt8} {rest : List UInt8} (hb : 0x80 ≤ b.toNat)
    (hnext : ∀ next ∈ rest.head?, ¬ Begins [b, next]) : IllFormed [b] rest := by
  have hle : ∀ longer, longer <+: [b] ++ rest → Begins longer → longer.length ≤ 1 := by
    intro longer hpre hlonger
    match longer with
    | [] => simp
    | [_] => simp
    | a :: next :: more =>
      obtain ⟨rfl, htail⟩ := List.cons_prefix_cons.1 hpre
      obtain ⟨after, (rfl : next :: more ++ after = rest)⟩ := htail
      exact absurd (hlonger.of_prefix ⟨more, rfl⟩) (hnext next rfl)
  refine ⟨by simp, fun c hc => ?_, Or.inr rfl, hle⟩
  have hlen := hle _ hc ⟨c, List.prefix_rfl⟩
  match hform : String.utf8EncodeChar c with
  | [] => exact encodeChar_ne_nil c hform
  | [a] =>
    rw [hform] at hc
    have ha : a = b := (List.cons_prefix_cons.1 hc).1
    have hlt : a.toNat < 0x80 := (hform ▸ isForm_encodeChar c : IsForm [a])
    rw [ha] at hlt
    omega
  | _ :: _ :: _ => simp [hform] at hlen

/-- Continuation bytes where no sequence is open are ill-formed, one by one. -/
theorem Reads.continuations {bs rest : List UInt8} {cs : List Char}
    (hcont : ∀ b ∈ bs, isContinuation b = true) (h : Reads rest cs) :
    Reads (bs ++ rest) ((bs.map fun _ => replacement) ++ cs) := by
  induction bs with
  | nil => exact h
  | cons b bs ih =>
    have hb := (isContinuation_iff b).1 (hcont b List.mem_cons_self)
    have hill : IllFormed [b] (bs ++ rest) := by
      refine illFormed_singleton (by omega) fun next _ hbegins => ?_
      have hlen := hbegins.cons.1
      rw [announced_eq, if_pos (by omega)] at hlen
      simp at hlen
    exact @Reads.illFormed [b] _ _ hill (ih fun b hb => hcont b (List.mem_cons_of_mem _ hb))

/-- **A sequence that is complete, or ends before it is, says what the decoder reads.** -/
theorem Reads.sequence {lead : UInt8} {more rest : List UInt8} {cs : List Char}
    (hmulti : 2 ≤ announced lead) (hlen : more.length + 1 ≤ announced lead)
    (hcont : ∀ b ∈ more, isContinuation b = true)
    (hend : more.length + 1 = announced lead ∨ Ends rest) (h : Reads rest cs) :
    Reads (lead :: more ++ rest) (readSequence (lead :: more) ++ cs) := by
  have hlead : 0xC0 ≤ lead.toNat := by
    refine Nat.le_of_not_lt fun hlt => ?_
    rw [announced_eq, if_pos hlt] at hmulti
    omega
  match more with
  | [] =>
    have hread : readSequence [lead] = [replacement] := by
      rw [readSequence, if_neg]
      rw [UInt8.lt_iff_toNat_lt]
      show ¬ lead.toNat < 0x80
      omega
    have hends : Ends rest := hend.resolve_left (by simp only [List.length_nil]; omega)
    rw [hread]
    exact Reads.illFormed (illFormed_of_ends hends hmulti (Or.inr rfl)) h
  | second :: more =>
    by_cases hadm : admits lead second = true
    · by_cases hfull : more.length + 2 = announced lead
      · have hform : IsForm (lead :: second :: more) := ⟨hfull.symm, hadm, hcont⟩
        obtain ⟨c, hc, hread⟩ := (isForm_iff _).1 hform
        rw [hread, ← hc]
        exact Reads.char c h
      · have hends : Ends rest := hend.resolve_left (by simpa using hfull)
        have hshort : more.length + 2 < announced lead := by
          simp only [List.length_cons] at hlen
          omega
        have hread : readSequence (lead :: second :: more) = [replacement] := by
          simp [readSequence, hadm, hshort]
        rw [hread]
        refine Reads.illFormed (illFormed_of_ends hends (by simpa using hshort) (Or.inl ?_)) h
        exact begins_of_admits (by omega) hadm hcont
    · have hread : readSequence (lead :: second :: more) =
          (lead :: second :: more).map fun _ => replacement := by
        simp [readSequence, hadm]
      have hill : IllFormed [lead] (second :: more ++ rest) := by
        refine illFormed_singleton (by omega) fun next hnext hbegins => hadm ?_
        have hsecond : second = next := by simpa using hnext
        exact hsecond ▸ hbegins.cons.2.2 next rfl
      rw [hread]
      exact @Reads.illFormed [lead] _ _ hill (Reads.continuations hcont h)

/-- A byte that is a sequence of its own. -/
theorem Reads.start {b : UInt8} {rest : List UInt8} {cs : List Char} (hone : announced b = 1)
    (h : Reads rest cs) : Reads (b :: rest) (readSequence [b] ++ cs) := by
  by_cases hb : b.toNat < 0x80
  · obtain ⟨c, hc, hread⟩ := (isForm_iff [b]).1 hb
    rw [hread]
    have hchar := Reads.char c h
    rwa [hc] at hchar
  · have hread : readSequence [b] = [replacement] := by
      rw [readSequence, if_neg]
      rw [UInt8.lt_iff_toNat_lt]
      exact hb
    rw [hread]
    refine @Reads.illFormed [b] _ _ (illFormed_singleton (by omega) fun next _ hbegins => ?_) h
    have hlen := hbegins.cons.1
    rw [hone] at hlen
    simp at hlen

/-- The bytes that a decoder holds back, with what they still need. -/
def Decoder.Open (d : Decoder) : Prop :=
  ∀ lead more, d.pending = lead :: more →
    more.length + 1 < announced lead ∧ ∀ b ∈ more, isContinuation b = true

namespace Decoder

theorem open_empty : ({} : Decoder).Open := by
  intro lead more h
  exact absurd h (by simp)

theorem open_single {b : UInt8} (h : announced b ≠ 1) : ({ pending := [b] } : Decoder).Open := by
  rintro lead more ⟨⟩
  have hpos := announced_pos b
  refine ⟨?_, by simp⟩
  rw [List.length_nil]
  omega

theorem open_sequence {lead : UInt8} {more : List UInt8} {b : UInt8}
    (hshort : (lead :: more ++ [b]).length < announced lead)
    (hcont : ∀ x ∈ more ++ [b], isContinuation x = true) :
    ({ pending := lead :: more ++ [b] } : Decoder).Open := by
  rintro lead' more' ⟨⟩
  exact ⟨by simpa using hshort, hcont⟩

/-- What is read from a state on. -/
theorem feed_cons (d : Decoder) (b : UInt8) (bs : List UInt8) :
    d.feed (b :: bs) =
      ((d.push b).1 ++ ((d.push b).2.feed bs).1, ((d.push b).2.feed bs).2) := by
  simp only [feed, List.foldl_cons, step]
  rw [foldl_step]
  simp

/-- **From every state, the decoder reads what the bytes held back and those to come say.** -/
theorem reads_feed {d : Decoder} (hopen : d.Open) (bs : List UInt8) :
    Reads (d.pending ++ bs) ((d.feed bs).1 ++ (d.feed bs).2.finish) := by
  induction bs generalizing d with
  | nil =>
    rw [feed_nil, List.append_nil, List.nil_append, finish]
    match hp : d.pending with
    | [] => exact Reads.nil
    | lead :: more =>
      obtain ⟨hlen, hcont⟩ := hopen lead more hp
      have hread : Reads (lead :: more ++ []) (readSequence (lead :: more) ++ []) :=
        Reads.sequence (by omega) (by omega) hcont (Or.inr (by simp [Ends])) Reads.nil
      rwa [List.append_nil, List.append_nil] at hread
  | cons b bs ih =>
    -- A byte that begins a sequence, whether one was open or not.
    have hstart : Reads (b :: bs)
        ((start b).1 ++ (((start b).2.feed bs).1 ++ ((start b).2.feed bs).2.finish)) := by
      unfold start
      split
      · next hone => exact Reads.start hone (ih open_empty)
      · next hmulti => exact ih (open_single hmulti)
    rw [feed_cons, List.append_assoc, push]
    split
    · next hp => simpa [hp] using hstart
    · next lead more hp =>
      obtain ⟨hlen, hcont⟩ := hopen lead more hp
      rw [hp]
      split
      · next hb =>
        have hcont' : ∀ x ∈ more ++ [b], isContinuation x = true := by
          intro x hx
          rcases List.mem_append.1 hx with hx | hx
          · exact hcont x hx
          · rw [List.mem_singleton.1 hx]
            exact hb
        have hread : (lead :: more) ++ b :: bs = (lead :: (more ++ [b])) ++ bs := by simp
        rw [hread]
        dsimp only
        split
        · next hshort => exact ih (open_sequence hshort hcont')
        · next hfull =>
          have hlength : (more ++ [b]).length + 1 = announced lead := by
            simp only [List.length_append, List.length_cons, List.length_nil] at hfull ⊢
            omega
          exact Reads.sequence (by omega) (by omega) hcont' (Or.inl hlength) (ih open_empty)
      · next hb =>
        have hends : Ends (b :: bs) := by simpa [Ends] using hb
        dsimp only
        rw [List.append_assoc]
        exact Reads.sequence (by omega) (by omega) hcont (Or.inr hends) hstart

/-! ### What is held back -/

theorem open_start (b : UInt8) : (start b).2.Open := by
  unfold start
  split
  · exact open_empty
  · next h => exact open_single h

/-- **One byte.** What is held back after it still needs continuation bytes. -/
theorem Open.push {d : Decoder} (h : d.Open) (b : UInt8) : (d.push b).2.Open := by
  unfold Decoder.push
  split
  · exact open_start b
  · next lead more hp =>
    obtain ⟨-, hcont⟩ := h lead more hp
    split
    · next hb =>
      dsimp only
      split
      · next hshort =>
        refine open_sequence hshort ?_
        intro x hx
        rcases List.mem_append.1 hx with hx | hx
        · exact hcont x hx
        · rw [List.mem_singleton.1 hx]
          exact hb
      · exact open_empty
    · exact open_start b

theorem Open.feed {d : Decoder} (h : d.Open) (bytes : List UInt8) : (d.feed bytes).2.Open := by
  induction bytes generalizing d with
  | nil => exact h
  | cons b bs ih =>
    rw [feed_cons]
    exact ih (h.push b)

/-- A sequence that the end of the input leaves unfinished is no character. -/
theorem Open.finish {d : Decoder} (h : d.Open) : ∀ c ∈ d.finish, c = replacement := by
  intro c hc
  unfold Decoder.finish at hc
  match hp : d.pending with
  | [] =>
    rw [hp] at hc
    cases hc
  | [lead] =>
    obtain ⟨hlen, -⟩ := h lead [] hp
    have hlead : ¬ lead < 0x80 := by
      intro hlt
      have hascii : lead.toNat < 0x80 := UInt8.lt_iff_toNat_lt.1 hlt
      rw [announced_eq, if_pos (by omega)] at hlen
      exact absurd hlen (by decide)
    rw [hp, readSequence, if_neg hlead] at hc
    exact List.mem_singleton.1 hc
  | lead :: second :: more =>
    obtain ⟨hlen, -⟩ := h lead (second :: more) hp
    rw [hp, readSequence] at hc
    split at hc
    · obtain ⟨_, -, rfl⟩ := List.mem_map.1 hc
      rfl
    · rw [if_pos (by simpa using hlen)] at hc
      exact List.mem_singleton.1 hc

end Decoder

/-- **The text of a byte sequence is the one thing that the bytes say.** -/
theorem reads_iff {bytes : List UInt8} {cs : List Char} :
    Reads bytes cs ↔ cs = decode bytes := by
  have hdecode : Reads bytes (decode bytes) := Decoder.reads_feed Decoder.open_empty bytes
  constructor
  · intro h
    exact h.unique hdecode
  · rintro rfl
    exact hdecode

/-! ### Bytes of a text -/

/-- Walking through an array of bytes lists what has been listed and the bytes still to come. -/
theorem toList_loop (bytes : ByteArray) (i : Nat) (listed : List UInt8) :
    ByteArray.toList.loop bytes i listed = listed.reverse ++ bytes.data.toList.drop i := by
  unfold ByteArray.toList.loop
  split
  · next h =>
    have hget : bytes.get! i = bytes.data.toList[i] := by
      rw [ByteArray.get!, getElem!_pos bytes.data i h]
      rfl
    rw [toList_loop, hget, List.reverse_cons, List.append_assoc, List.singleton_append,
      List.getElem_cons_drop]
  · next h =>
    have hlong : bytes.data.toList.length ≤ i := Nat.le_of_not_lt h
    rw [List.drop_of_length_le hlong, List.append_nil]
termination_by bytes.size - i

/-- The bytes of a text are the forms of its characters. -/
theorem encode_eq (text : String) : encode text = text.toList.flatMap String.utf8EncodeChar := by
  have hbytes : (String.ofList text.toList).toUTF8 =
      (text.toList.flatMap String.utf8EncodeChar).toByteArray := rfl
  rw [String.ofList_toList] at hbytes
  rw [encode, hbytes, ByteArray.toList, toList_loop, List.reverse_nil, List.nil_append, List.drop_zero,
    List.toList_data_toByteArray]

theorem encode_append (text more : String) : encode (text ++ more) = encode text ++ encode more := by
  rw [encode_eq, encode_eq, encode_eq, String.toList_append, List.flatMap_append]

/-- **A text is read back from its bytes.** -/
theorem decode_encode (text : String) : decode (encode text) = text.toList := by
  have hreads : ∀ cs : List Char, Reads (cs.flatMap String.utf8EncodeChar) cs := by
    intro cs
    induction cs with
    | nil => exact .nil
    | cons c cs ih => exact .char c ih
  rw [encode_eq, ← reads_iff.1 (hreads text.toList)]

end Framewise.Text.Utf8
