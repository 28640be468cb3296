import Framewise.Proofs.Log.Faults
import Framewise.Proofs.Text.Pieces

/-!
# Metric lines

The content of a metric line is cut at its last run of blanks: a name on one line before it, a
value after it. `MetricParts` says so of the characters, without any order in which they are read.

* `splitLast?_metric_iff`: the cut that the reader makes is this one.
* `metric_of_indent`: four blanks make a metric line, also with its terminator.
* `push_metric`: what a reader in any state does with such a line.
-/

namespace Framewise.Log

/-- The parts of the content of a metric line: a name that goes over no line break, the last run
of blanks, and a word. -/
structure MetricParts (content name gap word : List Char) : Prop
    extends Text.LastCut content name gap word where
  one_line : ∀ c ∈ name, Text.isLineBreak c = false

section

variable {content name gap word : List Char}

/-- The reader cuts a content where its parts are. -/
theorem splitLast?_metric_iff :
    (Text.splitLast? content = some (name, word) ∧ name.any Text.isLineBreak = false) ↔
      ∃ gap, MetricParts content name gap word := by
  rw [Text.splitLast?_eq_some_iff]
  constructor
  · rintro ⟨⟨gap, hcut⟩, hline⟩
    exact ⟨gap, hcut, Text.forall_eq_false hline⟩
  · rintro ⟨gap, hparts⟩
    refine ⟨⟨gap, hparts.toLastCut⟩, List.any_eq_false.2 ?_⟩
    intro c hc
    exact Bool.eq_false_iff.1 (hparts.one_line c hc)

/-- **Four blanks make a metric line**, whatever terminator is taken off its end. -/
theorem metric_of_indent {line : List Char} (indented : metricIndent.toList <+: line) :
    LineKind.of (Text.dropTerminator line) = .metric := by
  have hplain : ∀ c ∈ metricIndent.toList, Text.isLineBreak c = false :=
    Text.forall_eq_false (by decide)
  rw [LineKind.of_eq_metric_iff, startsWith, List.isPrefixOf_iff_prefix]
  exact Text.isPrefix_dropTerminator indented hplain

variable {line : String} (indented : metricIndent.toList <+: line.toList)

include indented

theorem tells_metric {value : Float}
    (parts : MetricParts (Text.trim (Text.dropTerminator line.toList)) name gap word)
    (number : Number.parse? (String.ofList word) = some value) :
    Tells (Text.dropTerminator line.toList) (.metric (String.ofList name) value) := by
  obtain ⟨hsplit, hline⟩ := splitLast?_metric_iff.2 ⟨gap, parts⟩
  exact .metric name word (metric_of_indent indented) hsplit hline number

theorem misreads_number
    (parts : MetricParts (Text.trim (Text.dropTerminator line.toList)) name gap word)
    (number : Number.parse? (String.ofList word) = none) :
    Misreads (Text.dropTerminator line.toList)
      ⟨.badNumber (String.ofList word), String.ofList word⟩ := by
  obtain ⟨hsplit, hline⟩ := splitLast?_metric_iff.2 ⟨gap, parts⟩
  exact .metricValue name word (metric_of_indent indented) hsplit hline number

theorem misreads_parts
    (none : ¬ ∃ name gap word,
      MetricParts (Text.trim (Text.dropTerminator line.toList)) name gap word) :
    Misreads (Text.dropTerminator line.toList)
      ⟨.noValue, String.ofList (Text.trim (Text.dropTerminator line.toList))⟩ := by
  refine .noValue (metric_of_indent indented) ?_
  intro name word hsplit
  by_contra hline
  rw [Bool.not_eq_true] at hline
  obtain ⟨gap, parts⟩ := splitLast?_metric_iff.1 ⟨hsplit, hline⟩
  exact none ⟨name, gap, word, parts⟩

end

/-- **A metric line is cut at its last run of blanks.** Let a line begin with four blanks, and let
`content` be what is left of it without its terminator and without the blanks at its ends.

* Its parts can be found in one way, and the word is the longest tail without blanks.
* The line is accepted, in whatever state the reader is, exactly if there are parts and the word is
  a number.
* Then the number is entered under the name, in the record in progress or in a new one; in a camera
  section the name has the camera's number. All other entries and the number of sections stay.
* Without parts the content is at fault, and if only the word is no number then the word is; the
  line is counted and nothing else changes. -/
theorem push_metric (r : Reader) (line : String)
    (indented : metricIndent.toList <+: line.toList) :
    let content := Text.trim (Text.dropTerminator line.toList)
    let counted : Reader := { r with lineNumber := r.lineNumber + 1 }
    let before : Record := r.frame.getD .empty
    (∀ name gap word, MetricParts content name gap word →
      (∀ name' gap' word', MetricParts content name' gap' word' →
        name = name' ∧ gap = gap' ∧ word = word') ∧
      ∀ tail, tail <:+ content → (∀ c ∈ tail, Text.isBlank c = false) → tail <:+ word) ∧
    ((∃ given, (r.push line).2 = .ok given) ↔ ∃ name gap word value,
      MetricParts content name gap word ∧ Number.parse? (String.ofList word) = some value) ∧
    (∀ name gap word value, MetricParts content name gap word →
      Number.parse? (String.ofList word) = some value →
      let key := qualify (String.ofList name) r.camera
      ∃ record : Record, r.push line = ({ counted with frame := some record }, .ok none) ∧
        (∀ other, record.get? other = if key = other then some value else before.get? other) ∧
        record.keys = if key ∈ before.keys then before.keys else before.keys ++ [key]) ∧
    ((¬ ∃ name gap word, MetricParts content name gap word) →
      r.push line = (counted,
        .error ⟨.noValue, String.ofList content, r.source, some (r.lineNumber + 1)⟩)) ∧
    ∀ name gap word, MetricParts content name gap word →
      Number.parse? (String.ofList word) = none →
      r.push line = (counted, .error ⟨.badNumber (String.ofList word), String.ofList word,
        r.source, some (r.lineNumber + 1)⟩) := by
  intro content counted before
  have hbad : ∀ name gap word, MetricParts content name gap word →
      Number.parse? (String.ofList word) = none →
      r.push line = (counted, .error ⟨.badNumber (String.ofList word), String.ofList word,
        r.source, some (r.lineNumber + 1)⟩) :=
    fun name gap word parts number => r.push_misreads (misreads_number indented parts number)
  have hnone : (¬ ∃ name gap word, MetricParts content name gap word) →
      r.push line = (counted,
        .error ⟨.noValue, String.ofList content, r.source, some (r.lineNumber + 1)⟩) :=
    fun none => r.push_misreads (misreads_parts indented none)
  have hgood : ∀ name gap word value, MetricParts content name gap word →
      Number.parse? (String.ofList word) = some value →
      r.push line = (counted.addMetric (String.ofList name) value, .ok none) :=
    fun name gap word value parts number => Reader.push_tells (tells_metric indented parts number) r
  refine ⟨?_, ?_, ?_, hnone, hbad⟩
  · intro name gap word parts
    refine ⟨?_, ?_⟩
    · intro name' gap' word' parts'
      exact parts.toLastCut.unique parts'.toLastCut
    · intro tail htail hfree
      exact parts.word_longest htail hfree
  · constructor
    · rintro ⟨given, hgiven⟩
      by_contra hno
      by_cases hparts : ∃ name gap word, MetricParts content name gap word
      · obtain ⟨name, gap, word, parts⟩ := hparts
        cases number : Number.parse? (String.ofList word) with
        | some value => exact hno ⟨name, gap, word, value, parts, number⟩
        | none =>
          rw [hbad name gap word parts number] at hgiven
          cases hgiven
      · rw [hnone hparts] at hgiven
        cases hgiven
    · rintro ⟨name, gap, word, value, parts, number⟩
      exact ⟨none, congrArg Prod.snd (hgood name gap word value parts number)⟩
  · intro name gap word value parts number key
    refine ⟨before.insert key value, hgood name gap word value parts number, ?_, ?_⟩
    · intro other
      exact OrderedMap.get?_insert before key other value
    · exact OrderedMap.keys_insert before key value

/-- A metric after a camera section, with a name of two words and a value behind a tab: it replaces
the entry that the record in progress has for this camera. -/
theorem push_metric_camera :
    let r : Reader := { frame := some (.ofList [("n", 1), ("Draw calls Camera 1", 7)]), camera := 1 }
    let line := "      Draw calls \t 2.5\r\n"
    let content := Text.trim (Text.dropTerminator line.toList)
    metricIndent.toList <+: line.toList ∧
    MetricParts content "Draw calls".toList " \t ".toList "2.5".toList ∧
    Number.parse? (String.ofList "2.5".toList) = some 2.5 ∧
    qualify (String.ofList "Draw calls".toList) r.camera = "Draw calls Camera 1" ∧
    ∃ record : Record, r.push line =
        ({ r with lineNumber := 1, frame := some record }, .ok none) ∧
      record.get? "Draw calls Camera 1" = some 2.5 ∧ record.get? "n" = some 1 ∧
      record.keys = ["n", "Draw calls Camera 1"] := by
  intro r line content
  have indented : metricIndent.toList <+: line.toList :=
    List.isPrefixOf_iff_prefix.1 (by decide)
  have parts : MetricParts content "Draw calls".toList " \t ".toList "2.5".toList := by
    constructor
    · exact {
        whole := by decide
        front_ne := by decide
        front_ends := fun c hc => by cases hc; decide
        gap_ne := by decide
        gap_blank := List.all_eq_true.1 (by decide)
        word_ne := by decide
        word_free := Text.forall_eq_false (by decide) }
    · exact Text.forall_eq_false (by decide)
  have number : Number.parse? (String.ofList "2.5".toList) = some 2.5 := by decide +kernel
  have hkey : qualify (String.ofList "Draw calls".toList) r.camera = "Draw calls Camera 1" := by
    decide
  obtain ⟨record, hpush, hget, hkeys⟩ :=
    (push_metric r line indented).2.2.1 _ _ _ _ parts number
  refine ⟨indented, parts, number, hkey, record, hpush, ?_, ?_, ?_⟩
  · rw [hget, if_pos hkey]
  · exact hget "n"
  · rw [hkeys, hkey, if_pos (by decide)]
    rfl

end Framewise.Log
