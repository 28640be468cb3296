import Mathlib.Data.List.Basic
import Mathlib.Data.List.TakeWhile
import Framewise.Proofs.Text.Chunking

/-!
# What the cuts of a text give

Words hold no blank, a trimmed text begins and ends with none, and lines hold no line feed. So what
has been cut can be put together again without being mistaken for something else.

* `trim_surround`: blanks around a text make no difference to the trimmed text.
* `blankFree_of_mem_words`: the words of a text.
* `splitLast?_eq_some_iff`: a text is cut at its last run of blanks, which can be done in one way.
* `splitLines_join`: texts on a line each are the lines of the whole.
-/

namespace Framewise.Text

theorem not_isBlank_of_isDigit {c : Char} (h : c.isDigit = true) : isBlank c = false := by
  have hrange : 48 ≤ c.toNat ∧ c.toNat ≤ 57 := by
    simp only [Char.isDigit, Bool.and_eq_true, decide_eq_true_eq] at h
    exact h
  simp only [isBlank, blankRanges, List.any_cons, List.any_nil, Bool.or_false,
    Bool.or_eq_false_iff, Bool.and_eq_false_iff, decide_eq_false_iff_not]
  omega

theorem forall_eq_false {p : Char → Bool} {cs : List Char} (h : cs.any p = false) :
    ∀ c ∈ cs, p c = false :=
  fun c hc => Bool.eq_false_iff.2 (List.any_eq_false.1 h c hc)

/-! ### Ends -/

theorem head?_dropWhile {p : Char → Bool} {cs : List Char} :
    ∀ c ∈ (cs.dropWhile p).head?, p c = false := by
  intro c hc
  have h := List.head?_dropWhile_not p cs
  rw [hc] at h
  exact h

theorem getLast?_dropTail {p : Char → Bool} {cs : List Char} :
    ∀ c ∈ (dropTail p cs).getLast?, p c = false := by
  rw [dropTail, List.getLast?_reverse]
  exact head?_dropWhile

theorem dropTail_isPrefix (p : Char → Bool) (cs : List Char) : dropTail p cs <+: cs :=
  ⟨takeTail p cs, dropTail_append_takeTail p cs⟩

/-- The beginning of a text begins as the text does. -/
theorem head?_of_isPrefix {xs ys : List Char} (h : xs <+: ys) : ∀ c ∈ xs.head?, c ∈ ys.head? := by
  obtain ⟨rest, rfl⟩ := h
  intro c hc
  rw [List.head?_append, hc]
  rfl

/-- A trimmed text begins with no blank. -/
theorem head?_trim (cs : List Char) : ∀ c ∈ (trim cs).head?, isBlank c = false := by
  intro c hc
  exact head?_dropWhile c (head?_of_isPrefix (dropTail_isPrefix isBlank _) c hc)

theorem dropWhile_of_head? {p : Char → Bool} {cs : List Char} (h : ∀ c ∈ cs.head?, p c = false) :
    cs.dropWhile p = cs := by
  cases cs with
  | nil => rfl
  | cons c cs => rw [List.dropWhile_cons, h c rfl, if_neg Bool.false_ne_true]

/-- A text is cut where its tail begins. -/
theorem dropTail_append {p : Char → Bool} {xs ys : List Char} (hxs : ∀ c ∈ xs.getLast?, p c = false)
    (hys : ∀ c ∈ ys, p c = true) : dropTail p (xs ++ ys) = xs := by
  rw [← List.head?_reverse] at hxs
  have hrev : ∀ c ∈ ys.reverse, p c = true := fun c hc => hys c (List.mem_reverse.1 hc)
  rw [dropTail, List.reverse_append, List.dropWhile_append_of_pos hrev, dropWhile_of_head? hxs,
    List.reverse_reverse]

theorem takeTail_append {p : Char → Bool} {xs ys : List Char} (hxs : ∀ c ∈ xs.getLast?, p c = false)
    (hys : ∀ c ∈ ys, p c = true) : takeTail p (xs ++ ys) = ys := by
  have hwhole := dropTail_append_takeTail p (xs ++ ys)
  rw [dropTail_append hxs hys] at hwhole
  exact List.append_cancel_left hwhole

theorem forall_mem_takeTail {p : Char → Bool} {cs : List Char} : ∀ c ∈ takeTail p cs, p c = true := by
  intro c hc
  exact List.mem_takeWhile_imp (List.mem_reverse.1 hc)

theorem dropTail_append_of_pos {p : Char → Bool} (xs : List Char) {ys : List Char}
    (hys : ∀ c ∈ ys, p c = true) : dropTail p (xs ++ ys) = dropTail p xs := by
  have hrev : ∀ c ∈ ys.reverse, p c = true := fun c hc => hys c (List.mem_reverse.1 hc)
  rw [dropTail, List.reverse_append, List.dropWhile_append_of_pos hrev, dropTail]

/-- **Blanks around a text** make no difference to what is left when it is trimmed. -/
theorem trim_surround {left right : List Char} (hleft : ∀ c ∈ left, isBlank c = true)
    (hright : ∀ c ∈ right, isBlank c = true) (cs : List Char) :
    trim (left ++ cs ++ right) = trim cs := by
  rw [trim, List.append_assoc, List.dropWhile_append_of_pos hleft, List.dropWhile_append]
  split
  · next hnone =>
    have hcs : cs.dropWhile isBlank = [] := List.isEmpty_iff.1 hnone
    rw [List.dropWhile_eq_nil_iff.2 hright, trim, hcs]
  · rw [dropTail_append_of_pos _ hright, trim]

theorem trim_leading {left : List Char} (hleft : ∀ c ∈ left, isBlank c = true) (cs : List Char) :
    trim (left ++ cs) = trim cs := by
  have h := trim_surround hleft (List.forall_mem_nil _) cs
  rwa [List.append_nil] at h

/-- A text that begins with no blank is trimmed at its end alone. -/
theorem trim_isPrefix {cs : List Char} (h : ∀ c ∈ cs.head?, isBlank c = false) : trim cs <+: cs := by
  rw [trim, dropWhile_of_head? h]
  exact dropTail_isPrefix isBlank cs

/-- What begins with no blank and stands behind a text without blanks is trimmed by itself. -/
theorem trim_append_left {front rest : List Char} (hfront : ∀ c ∈ front, isBlank c = false)
    (hrest : ∀ c ∈ rest.head?, isBlank c = false) : trim (front ++ rest) = front ++ trim rest := by
  have hhead : ∀ c ∈ (front ++ rest).head?, isBlank c = false := by
    intro c hc
    rw [List.head?_append, Option.mem_def, Option.or_eq_some_iff] at hc
    exact hc.elim (fun h => hfront c (List.mem_of_mem_head? h)) fun h => hrest c h.2
  have hlast : ∀ c ∈ (front ++ dropTail isBlank rest).getLast?, isBlank c = false := by
    intro c hc
    rw [List.getLast?_append, Option.mem_def, Option.or_eq_some_iff] at hc
    exact hc.elim (getLast?_dropTail c) fun h => hfront c (List.mem_of_mem_getLast? h.2)
  rw [trim, trim, dropWhile_of_head? hhead, dropWhile_of_head? hrest]
  conv_lhs => rw [← dropTail_append_takeTail isBlank rest, ← List.append_assoc]
  exact dropTail_append hlast forall_mem_takeTail

/-- A text without blanks is trimmed already. -/
theorem trim_of_blankFree {cs : List Char} (h : ∀ c ∈ cs, isBlank c = false) : trim cs = cs := by
  have htrim := @trim_append_left cs [] h fun c hc => by cases hc
  rwa [List.append_nil, show trim [] = [] from rfl, List.append_nil] at htrim

/-! ### Words -/

theorem forall_mem_cutAt {p : Char → Bool} (cs : List Char) :
    (∀ c ∈ (cutAt p cs).1, p c = false) ∧ ∀ piece ∈ (cutAt p cs).2, ∀ c ∈ piece, p c = false := by
  induction cs with
  | nil => simp
  | cons c cs ih =>
    obtain ⟨hfirst, hmore⟩ := ih
    rw [cutAt_cons]
    split
    · exact ⟨by simp, List.forall_mem_cons.2 ⟨hfirst, hmore⟩⟩
    · next hc => exact ⟨List.forall_mem_cons.2 ⟨by simpa using hc, hfirst⟩, hmore⟩

/-- **A word is a text without blanks**, and not the empty one. -/
theorem blankFree_of_mem_words {cs word : List Char} (h : word ∈ words cs) :
    word ≠ [] ∧ ∀ c ∈ word, isBlank c = false := by
  obtain ⟨hpiece, hne⟩ := List.mem_filter.1 h
  obtain ⟨hfirst, hmore⟩ := forall_mem_cutAt (p := isBlank) cs
  refine ⟨by simpa using hne, ?_⟩
  rcases List.mem_cons.1 hpiece with rfl | hpiece
  · exact hfirst
  · exact hmore word hpiece

/-- A text cut at its last run of blanks: the front ends where the run begins, and a word without
blanks follows it. -/
structure LastCut (cs front gap word : List Char) : Prop where
  whole : cs = front ++ gap ++ word
  front_ne : front ≠ []
  front_ends : ∀ c ∈ front.getLast?, isBlank c = false
  gap_ne : gap ≠ []
  gap_blank : ∀ c ∈ gap, isBlank c = true
  word_ne : word ≠ []
  word_free : ∀ c ∈ word, isBlank c = false

theorem LastCut.front_isPrefix {cs front gap word : List Char} (h : LastCut cs front gap word) :
    front <+: cs := by
  rw [h.whole, List.append_assoc]
  exact List.prefix_append front (gap ++ word)

/-- A run of blanks ends with a blank. -/
theorem LastCut.before_word {cs front gap word : List Char} (h : LastCut cs front gap word) :
    ∀ c ∈ (front ++ gap).getLast?, (!isBlank c) = false := by
  intro c hc
  rw [List.getLast?_append_of_ne_nil _ h.gap_ne] at hc
  rw [h.gap_blank c (List.mem_of_mem_getLast? hc)]
  rfl

theorem LastCut.word_eq {cs front gap word : List Char} (h : LastCut cs front gap word) :
    takeTail (!isBlank ·) cs = word ∧ dropTail (!isBlank ·) cs = front ++ gap := by
  have hword : ∀ c ∈ word, (!isBlank c) = true := fun c hc => by rw [h.word_free c hc]; rfl
  rw [h.whole]
  exact ⟨takeTail_append h.before_word hword, dropTail_append h.before_word hword⟩

/-- **A text is cut at its last run of blanks in one way**: what is before the run, and the word
after it, are what `splitLast?` gives, and it gives nothing if there is no such cut. -/
theorem splitLast?_eq_some_iff {cs front word : List Char} :
    splitLast? cs = some (front, word) ↔ ∃ gap, LastCut cs front gap word := by
  constructor
  · intro h
    unfold splitLast? at h
    simp only at h
    split at h
    · cases h
    · next hne =>
      rw [not_or] at hne
      obtain ⟨hfront, hword⟩ := Prod.mk.inj (Option.some.inj h)
      have hgap := dropTail_append_takeTail isBlank (dropTail (!isBlank ·) cs)
      have hwhole := dropTail_append_takeTail (!isBlank ·) cs
      refine ⟨takeTail isBlank (dropTail (!isBlank ·) cs), ?_, ?_, ?_, ?_, forall_mem_takeTail, ?_, ?_⟩
      · rw [← hfront, ← hword, hgap, hwhole]
      · exact hfront ▸ hne.1
      · exact hfront ▸ getLast?_dropTail
      · -- Without a gap, one character would end both the front and what the word follows.
        intro hnil
        rw [hnil, List.append_nil] at hgap
        obtain ⟨c, hc⟩ := Option.ne_none_iff_exists'.1 (mt List.getLast?_eq_none_iff.1 hne.1)
        have hblank := getLast?_dropTail c hc
        rw [hgap] at hc
        have hfree := getLast?_dropTail c hc
        rw [hblank] at hfree
        cases hfree
      · exact hword ▸ hne.2
      · intro c hc
        have hfree := forall_mem_takeTail c (hword ▸ hc)
        simpa using hfree
  · rintro ⟨gap, h⟩
    obtain ⟨hword, hbefore⟩ := h.word_eq
    unfold splitLast?
    simp only
    rw [hword, hbefore, dropTail_append h.front_ends h.gap_blank,
      if_neg (not_or.2 ⟨h.front_ne, h.word_ne⟩)]

/-- There are no two such cuts. -/
theorem LastCut.unique {cs front gap word front' gap' word' : List Char}
    (h : LastCut cs front gap word) (h' : LastCut cs front' gap' word') :
    front = front' ∧ gap = gap' ∧ word = word' := by
  have hsplit := splitLast?_eq_some_iff.2 ⟨gap, h⟩
  rw [splitLast?_eq_some_iff.2 ⟨gap', h'⟩] at hsplit
  obtain ⟨rfl, rfl⟩ := Prod.mk.inj (Option.some.inj hsplit)
  have hgap : front' ++ gap = front' ++ gap' := h.word_eq.2.symm.trans h'.word_eq.2
  exact ⟨rfl, List.append_cancel_left hgap, rfl⟩

/-- The word of the cut is the longest tail without blanks. -/
theorem LastCut.word_longest {cs front gap word : List Char} (h : LastCut cs front gap word)
    {tail : List Char} (htail : tail <:+ cs) (hfree : ∀ c ∈ tail, isBlank c = false) :
    tail <:+ word := by
  rcases List.suffix_or_suffix_of_suffix htail (h.whole ▸ List.suffix_append (front ++ gap) word)
    with hshort | hlong
  · exact hshort
  · obtain ⟨more, rfl⟩ := hlong
    obtain ⟨rest, hrest⟩ := htail
    rw [h.whole, ← List.append_assoc] at hrest
    have hbefore : rest ++ more = front ++ gap := List.append_cancel_right hrest
    cases hmore : more.getLast? with
    | none =>
      rw [List.getLast?_eq_none_iff.1 hmore]
      exact List.suffix_rfl
    | some c =>
      -- A longer tail would hold the last blank of the gap.
      have hc : c ∈ (front ++ gap).getLast? := by
        rw [← hbefore, List.getLast?_append, hmore]
        rfl
      have hblank := h.before_word c hc
      rw [hfree c (List.mem_append_left _ (List.mem_of_mem_getLast? hmore))] at hblank
      cases hblank

/-! ### Lines -/

/-- What is dropped from the end of a line is a part of a line break. -/
theorem dropTerminator_append (cs : List Char) :
    ∃ ending, cs = dropTerminator cs ++ ending ∧ ∀ c ∈ ending, isLineBreak c = true := by
  unfold dropTerminator
  split
  · next rest h =>
    exact ⟨['\r', '\n'], by simpa using congrArg List.reverse h,
      List.all_eq_true.1 (by decide)⟩
  · next rest h =>
    exact ⟨['\n'], by simpa using congrArg List.reverse h,
      List.all_eq_true.1 (by decide)⟩
  · next rest h =>
    exact ⟨['\r'], by simpa using congrArg List.reverse h,
      List.all_eq_true.1 (by decide)⟩
  · exact ⟨[], (List.append_nil cs).symm, List.forall_mem_nil _⟩

/-- A beginning without line breaks stays. -/
theorem isPrefix_dropTerminator {start cs : List Char} (h : start <+: cs)
    (hline : ∀ c ∈ start, isLineBreak c = false) : start <+: dropTerminator cs := by
  obtain ⟨ending, hcs, hending⟩ := dropTerminator_append cs
  have hwhole : dropTerminator cs <+: cs := ⟨ending, hcs.symm⟩
  rcases List.prefix_or_prefix_of_prefix h hwhole with hstart | hlong
  · exact hstart
  · obtain ⟨more, rfl⟩ := hlong
    obtain ⟨rest, hrest⟩ := h
    rw [List.append_assoc] at hrest
    have hend : more ++ rest = ending := List.append_cancel_left (hrest.trans hcs)
    cases more with
    | nil => simp
    | cons c more =>
      have hbreak := hending c (hend ▸ List.mem_cons_self)
      rw [hline c (List.mem_append_right _ List.mem_cons_self)] at hbreak
      cases hbreak

/-- No line holds a line feed, be it ended or open. -/
theorem not_mem_line {cs line : List Char} (h : line ∈ pieces isLineFeed cs) : '\n' ∉ line := by
  obtain ⟨hfirst, hmore⟩ := forall_mem_cutAt (p := isLineFeed) cs
  have hfree : ∀ c ∈ line, isLineFeed c = false := by
    rcases List.mem_cons.1 h with rfl | hlater
    · exact hfirst
    · exact hmore line hlater
  intro hmem
  exact absurd (hfree '\n' hmem) (by decide)

theorem not_mem_ended {cs line : List Char} (h : line ∈ (feed cs).1) : '\n' ∉ line :=
  not_mem_line (List.dropLast_subset _ h)

theorem not_mem_open (cs : List Char) : '\n' ∉ (feed cs).2 :=
  not_mem_line (List.getLast_mem _)

/-- A text without line feeds is one open line. -/
theorem feed_open {cs : List Char} (h : '\n' ∉ cs) : feed cs = ([], cs) := by
  induction cs with
  | nil => rfl
  | cons c cs ih =>
    rw [List.mem_cons, not_or] at h
    have hc : isLineFeed c = false := beq_false_of_ne (Ne.symm h.1)
    rw [feed_cons, hc, ih h.2]
    rfl

/-- Nothing is lost but what the cuts took: the ended lines with their line feeds, and the open line,
are the text. -/
theorem feed_whole (cs : List Char) : (feed cs).1.flatMap (· ++ ['\n']) ++ (feed cs).2 = cs := by
  induction cs with
  | nil => rfl
  | cons c cs ih =>
    rw [feed_cons]
    split
    · next hc =>
      obtain rfl : c = '\n' := beq_iff_eq.1 hc
      exact congrArg ('\n' :: ·) ih
    · unfold prependChar
      split
      · next hnone =>
        rw [hnone] at ih
        exact congrArg (c :: ·) ih
      · next line lines hsome =>
        rw [hsome] at ih
        exact congrArg (c :: ·) ih

/-- A text without line feeds, and then a line feed, is the first line. -/
theorem feed_line {line : List Char} (h : '\n' ∉ line) (cs : List Char) :
    feed (line ++ '\n' :: cs) = (line :: (feed cs).1, (feed cs).2) := by
  induction line with
  | nil =>
    have hfeed : isLineFeed '\n' = true := rfl
    rw [List.nil_append, feed_cons, if_pos hfeed]
  | cons c line ih =>
    rw [List.mem_cons, not_or] at h
    have hc : isLineFeed c = false := beq_false_of_ne (Ne.symm h.1)
    rw [List.cons_append, feed_cons, hc, ih h.2]
    rfl

/-- **Texts on a line each are the lines of the whole**, if no text holds a line feed. -/
theorem splitLines_join {texts : List String} (h : ∀ t ∈ texts, '\n' ∉ t.toList) :
    splitLines (String.join (texts.map (· ++ "\n"))) = texts := by
  have hfeed : feed (String.join (texts.map (· ++ "\n"))).toList =
      (texts.map String.toList, []) := by
    induction texts with
    | nil => rfl
    | cons t texts ih =>
      obtain ⟨ht, hrest⟩ := List.forall_mem_cons.1 h
      have htext : (String.join ((t :: texts).map (· ++ "\n"))).toList =
          t.toList ++ '\n' :: (String.join (texts.map (· ++ "\n"))).toList := by
        rw [List.map_cons, String.join_cons, String.toList_append, String.toList_append,
          List.append_assoc]
        rfl
      rw [htext, feed_line ht, ih hrest, List.map_cons]
  rw [splitLines, lines, hfeed]
  simp

end Framewise.Text
