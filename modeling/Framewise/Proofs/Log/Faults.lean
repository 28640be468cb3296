import Framewise.Proofs.Log.Segments

/-!
# Lines that cannot be read

A line that tells nothing has a fault, and the same one in every state of a reader. `Misreads` says
which faults there are, as `Tells` says what can be told.

* `push_eq_error_iff`: reading a line fails with its fault, at the place where the reader is.
* `tells_or_misreads`: there is no third kind of line.
* `readRecords_eq_error_iff`: a log fails at its first line that cannot be read.
-/

namespace Framewise.Log

/-- The fault of a line without its terminator, and the text that has it: a frame start of too few
words, a metric without a name or a value on one line, or a value that is no number. -/
inductive Misreads (line : List Char) : Misread → Prop where
  | tooFewWords (kind : LineKind.of line = .frameStart) (few : (Text.words line).length < 4) :
      Misreads line ⟨.tooFewWords (Text.words line).length, String.ofList line⟩
  | frameValue (front : List (List Char)) (key word : List Char)
      (kind : LineKind.of line = .frameStart)
      (words : Text.words line = front ++ [key, word])
      (many : 2 ≤ front.length)
      (number : Number.parse? (String.ofList word) = none) :
      Misreads line ⟨.badNumber (String.ofList word), String.ofList word⟩
  | noValue (kind : LineKind.of line = .metric)
      (split : ∀ name word, Text.splitLast? (Text.trim line) = some (name, word) →
        name.any Text.isLineBreak = true) :
      Misreads line ⟨.noValue, String.ofList (Text.trim line)⟩
  | metricValue (name word : List Char)
      (kind : LineKind.of line = .metric)
      (split : Text.splitLast? (Text.trim line) = some (name, word))
      (oneLine : name.any Text.isLineBreak = false)
      (number : Number.parse? (String.ofList word) = none) :
      Misreads line ⟨.badNumber (String.ofList word), String.ofList word⟩

/-! ### One line -/

theorem readValue_eq_error {word : List Char} {m : Misread} :
    readValue word = .error m ↔ Number.parse? (String.ofList word) = none ∧
      m = ⟨.badNumber (String.ofList word), String.ofList word⟩ := by
  simp only [readValue]
  cases Number.parse? (String.ofList word) with
  | none => simp [eq_comm]
  | some x => simp

/-- The first four of enough elements. -/
theorem exists_eq_cons_of_four_le {α : Type} {l : List α} (h : 4 ≤ l.length) :
    ∃ a b c d more, l = a :: b :: c :: d :: more := by
  rcases l with _ | ⟨a, _ | ⟨b, _ | ⟨c, _ | ⟨d, more⟩⟩⟩⟩
  · exact absurd h (by simp)
  · exact absurd h (by simp)
  · exact absurd h (by simp)
  · exact absurd h (by simp)
  · exact ⟨a, b, c, d, more, rfl⟩

theorem readFrameStart_eq_error {line : List Char} {m : Misread}
    (kind : LineKind.of line = .frameStart) :
    readFrameStart line = .error m ↔ Misreads line m := by
  simp only [readFrameStart]
  constructor
  · intro h
    split at h
    · next word key a b more hwords =>
      obtain ⟨number, rfl⟩ := readValue_eq_error.1 (map_eq_error.1 h)
      refine .frameValue (a :: b :: more).reverse key word kind ?_ (by simp) number
      have := congrArg List.reverse hwords
      simpa using this
    · next hshort =>
      obtain rfl := Except.error.inj h
      refine .tooFewWords kind ?_
      by_contra hlong
      rw [Nat.not_lt, ← List.length_reverse] at hlong
      obtain ⟨value, key, a, b, more, hwords⟩ := exists_eq_cons_of_four_le hlong
      exact hshort value key a b more hwords
  · intro h
    cases h with
    | tooFewWords _ few =>
      split
      · next value key a b more hwords =>
        have := congrArg List.length hwords
        simp only [List.length_reverse, List.length_cons] at this
        omega
      · rfl
    | frameValue front key word _ words many number =>
      have hlong : 4 ≤ (Text.words line).reverse.length := by
        rw [List.length_reverse, words, List.length_append]
        exact Nat.add_le_add_right many 2
      have hrev : (Text.words line).reverse = word :: key :: front.reverse := by
        rw [words]
        simp
      split
      · next value key' a b more hwords =>
        rw [hrev] at hwords
        obtain ⟨rfl, -⟩ := List.cons.inj hwords
        exact map_eq_error.2 (readValue_eq_error.2 ⟨number, rfl⟩)
      · next hshort =>
        obtain ⟨value, key', a, b, more, hwords⟩ := exists_eq_cons_of_four_le hlong
        exact absurd hwords (hshort value key' a b more)
    | noValue kind' | metricValue _ _ kind' => exact absurd (kind.symm.trans kind') (by decide)

theorem readMetric_eq_error {line : List Char} {m : Misread} (kind : LineKind.of line = .metric) :
    readMetric line = .error m ↔ Misreads line m := by
  simp only [readMetric]
  constructor
  · intro h
    split at h
    · next name word hsplit =>
      split at h
      · next hbreak =>
        obtain rfl := Except.error.inj h
        refine .noValue kind ?_
        intro name' word' hsplit'
        obtain ⟨rfl, -⟩ := Prod.mk.inj (Option.some.inj (hsplit.symm.trans hsplit'))
        exact hbreak
      · next hline =>
        obtain ⟨number, rfl⟩ := readValue_eq_error.1 (map_eq_error.1 h)
        exact .metricValue name word kind hsplit (by simpa using hline) number
    · next hsplit =>
      obtain rfl := Except.error.inj h
      refine .noValue kind ?_
      intro name word hsplit'
      rw [hsplit] at hsplit'
      cases hsplit'
  · intro h
    cases h with
    | tooFewWords kind' | frameValue _ _ _ kind' => exact absurd (kind.symm.trans kind') (by decide)
    | noValue _ split =>
      split
      · next name word hsplit => rw [if_pos (split name word hsplit)]
      · rfl
    | metricValue name word _ split oneLine number =>
      simp only [split, oneLine]
      exact map_eq_error.2 (readValue_eq_error.2 ⟨number, rfl⟩)

namespace Reader

/-- **Reading a line fails with the fault of the line**, whatever the record in progress is, at the
place that counts this line as well. -/
theorem push_eq_error_iff {r : Reader} {line : String} {e : ParseError} :
    (r.push line).2 = .error e ↔ ∃ m, Misreads (Text.dropTerminator line.toList) m ∧
      e = ⟨m.fault, m.token, r.source, some (r.lineNumber + 1)⟩ := by
  unfold push take
  cases kind : LineKind.of (Text.dropTerminator line.toList) with
  | frameStart =>
    simp only [← readFrameStart_eq_error kind]
    cases readFrameStart (Text.dropTerminator line.toList) with
    | ok start => simp
    | error m => simp [fail, eq_comm]
  | metric =>
    simp only [← readMetric_eq_error kind]
    cases readMetric (Text.dropTerminator line.toList) with
    | ok entry => simp
    | error m => simp [fail, eq_comm]
  | cameraSection | other =>
    simp only [reduceCtorEq, false_iff, not_exists, not_and]
    intro m hm
    cases hm with
    | tooFewWords kind' | frameValue _ _ _ kind' | noValue kind' | metricValue _ _ kind' =>
      exact absurd (kind.symm.trans kind') (by decide)

/-- A line that cannot be read is counted, and gives its fault with its place. -/
theorem push_misreads {line : String} {m : Misread}
    (h : Misreads (Text.dropTerminator line.toList) m) (r : Reader) :
    r.push line = ({ r with lineNumber := r.lineNumber + 1 },
      .error ⟨m.fault, m.token, r.source, some (r.lineNumber + 1)⟩) := by
  have herror := (push_eq_error_iff (r := r)).2 ⟨m, h, rfl⟩
  exact Prod.ext (push_error herror) herror

end Reader

/-- **There is no third kind of line**, and no line is of both. -/
theorem tells_or_misreads (line : String) :
    ((∃ e, Tells (Text.dropTerminator line.toList) e) ∨
      ∃ m, Misreads (Text.dropTerminator line.toList) m) ∧
    ∀ e m, Tells (Text.dropTerminator line.toList) e →
      ¬ Misreads (Text.dropTerminator line.toList) m := by
  constructor
  · cases h : (({} : Reader).push line).2 with
    | ok completed => exact .inl (Reader.tells_of_push h)
    | error e =>
      obtain ⟨m, hm, -⟩ := Reader.push_eq_error_iff.1 h
      exact .inr ⟨m, hm⟩
  · intro e m he hm
    have hok := Reader.push_tells he {}
    have herror := Reader.push_misreads hm {}
    exact absurd (herror.symm.trans hok) (by simp)

/-! ### Whole logs -/

/-- The error of lines: they go on to the first one that cannot be read, whose number is its
place. -/
inductive FirstFault (source : Option String) (lines : List String) : ParseError → Prop where
  | intro (before : List String) (line : String) (after : List String) {entries : List Entry}
      {m : Misread}
      (cut : lines = before ++ line :: after)
      (told : TellAll before entries)
      (misread : Misreads (Text.dropTerminator line.toList) m) :
      FirstFault source lines ⟨m.fault, m.token, source, some (before.length + 1)⟩

/-- Lines all tell something, or one of them is the first that does not. -/
theorem tellAll_or_firstFault (source : Option String) (lines : List String) :
    (∃ entries, TellAll lines entries) ∨ ∃ e, FirstFault source lines e := by
  induction lines with
  | nil => exact .inl ⟨[], .nil⟩
  | cons line lines ih =>
    rcases (tells_or_misreads line).1 with ⟨e, he⟩ | ⟨m, hm⟩
    · rcases ih with ⟨entries, htold⟩ | ⟨error, before, first, after, cut, told, misread⟩
      · exact .inl ⟨e :: entries, .cons he htold⟩
      · exact .inr ⟨_, .intro (line :: before) first after (congrArg (line :: ·) cut)
          (.cons he told) misread⟩
    · exact .inr ⟨_, .intro [] line lines rfl .nil hm⟩

/-- The reader after lines that all tell something has counted them all. -/
theorem reader_foldl_tells {lines : List String} {entries : List Entry}
    (h : TellAll lines entries) {p : Progress} (hstop : p.stop = none) :
    (lines.foldl Progress.step p).reader.source = p.reader.source ∧
    (lines.foldl Progress.step p).reader.lineNumber = p.reader.lineNumber + lines.length := by
  induction h generalizing p with
  | nil => exact ⟨rfl, rfl⟩
  | @cons line e lines es htells hrest ih =>
    have hpush := Reader.push_tells htells p.reader
    have hstep : (p.step line).stop = none ∧
        (p.step line).reader.source = p.reader.source ∧
        (p.step line).reader.lineNumber = p.reader.lineNumber + 1 := by
      simp only [Progress.step, hstop, hpush]
      cases e with
      | frameStart key value => cases hframe : p.reader.frame <;> exact ⟨rfl, rfl, rfl⟩
      | cameraSection | metric | other => exact ⟨rfl, rfl, rfl⟩
    obtain ⟨hgoes, hsource, hcount⟩ := hstep
    obtain ⟨hsource', hcount'⟩ := ih hgoes
    rw [List.foldl_cons, List.length_cons]
    exact ⟨hsource'.trans hsource, by omega⟩

/-- A reading stops at a line that cannot be read. -/
theorem stop_step {p : Progress} {line : String} {m : Misread} (hgoes : p.stop = none)
    (h : Misreads (Text.dropTerminator line.toList) m) :
    (p.step line).stop = some ⟨m.fault, m.token, p.reader.source, some (p.reader.lineNumber + 1)⟩ := by
  simp only [Progress.step, hgoes, p.reader.push_misreads h]

/-- **A log fails at its first line that cannot be read.** -/
theorem readRecords_eq_error_iff {source : Option String} {lines : List String} {e : ParseError} :
    (readRecords source lines).2 = some e ↔ FirstFault source lines e := by
  have hfails : ∀ e, FirstFault source lines e → (readRecords source lines).2 = some e := by
    rintro e ⟨before, line, after, rfl, told, misread⟩
    let start : Progress := { reader := { source } }
    obtain ⟨hgoes, -⟩ := foldl_tells told (p := start) rfl
    obtain ⟨hsource, hcount⟩ := reader_foldl_tells told (p := start) rfl
    have hstop := stop_step hgoes misread
    rw [hsource, hcount, Nat.zero_add] at hstop
    show ((before ++ line :: after).foldl Progress.step start).stop = _
    rw [List.foldl_append, List.foldl_cons, foldl_stopped (by rw [hstop]; simp), hstop]
  constructor
  · intro h
    rcases tellAll_or_firstFault source lines with ⟨entries, htold⟩ | ⟨e', he'⟩
    · have hnone : (readRecords source lines).2 = none := (foldl_tells htold rfl).1
      exact absurd (h.symm.trans hnone) (by simp)
    · obtain rfl := Option.some.inj (h.symm.trans (hfails e' he'))
      exact he'
  · exact hfails e

end Framewise.Log
