import Mathlib.Data.List.Forall2
import Framewise.Proofs.Log.Loading
import Framewise.Proofs.Text.Pieces

/-!
# Line endings

A carriage return before a line feed stays on the line, where it is taken off as a part of the
terminator. So it makes no difference to a log which of its lines end with one.

* `feed_putReturns`: what carriage returns before line feeds do to the lines of a text.
* `Reader.push_congr`: a reader sees lines without their terminators.
* `carries_texts`, `carries_bytes`: the ways in which chunks can carry a text.
* `lineEndings_invisible`: logs that differ in carriage returns before line feeds.
-/

namespace Framewise.Text

/-! ### Lines with a carriage return -/

/-- A text with a carriage return put before the chosen ones of its line feeds, counted from zero. -/
def putReturns (chosen : Nat → Bool) : List Char → List Char
  | [] => []
  | c :: cs =>
    if isLineFeed c then
      (if chosen 0 then ['\r'] else []) ++ c :: putReturns (fun i => chosen (i + 1)) cs
    else c :: putReturns chosen cs

/-- A line, or the line with a carriage return after it. -/
def MayReturn (line line' : List Char) : Prop := line' = line ∨ line' = line ++ ['\r']

theorem mayReturn_prependChar (c : Char) {cut cut' : List (List Char) × List Char}
    (hended : List.Forall₂ MayReturn cut.1 cut'.1) (hopen : cut'.2 = cut.2) :
    List.Forall₂ MayReturn (prependChar c cut).1 (prependChar c cut').1 ∧
      (prependChar c cut').2 = (prependChar c cut).2 := by
  obtain ⟨ended, rest⟩ := cut
  obtain ⟨ended', rest'⟩ := cut'
  obtain rfl : rest' = rest := hopen
  cases hended with
  | nil => exact ⟨.nil, rfl⟩
  | @cons line line' lines lines' hline hlines =>
    refine ⟨.cons ?_ hlines, rfl⟩
    rcases hline with rfl | rfl
    · exact .inl rfl
    · exact .inr rfl

/-- **Carriage returns before line feeds** end up on the lines that the line feeds end; the open line
is the same. -/
theorem feed_putReturns (chosen : Nat → Bool) (cs : List Char) :
    List.Forall₂ MayReturn (feed cs).1 (feed (putReturns chosen cs)).1 ∧
      (feed (putReturns chosen cs)).2 = (feed cs).2 := by
  induction cs generalizing chosen with
  | nil => exact ⟨.nil, rfl⟩
  | cons c cs ih =>
    rw [putReturns, feed_cons]
    split
    · next hc =>
      obtain ⟨hended, hopen⟩ := ih fun i => chosen (i + 1)
      have hrest : feed (c :: putReturns (fun i => chosen (i + 1)) cs) =
          ([] :: (feed (putReturns (fun i => chosen (i + 1)) cs)).1,
            (feed (putReturns (fun i => chosen (i + 1)) cs)).2) := by
        rw [feed_cons, if_pos hc]
      split
      · rw [List.singleton_append, feed_cons, hrest]
        exact ⟨.cons (.inr rfl) hended, hopen⟩
      · rw [List.nil_append, hrest]
        exact ⟨.cons (.inl rfl) hended, hopen⟩
    · next hc =>
      rw [feed_cons, if_neg hc]
      exact mayReturn_prependChar c (ih chosen).1 (ih chosen).2

/-- If no line feed has a carriage return before it, no ended line ends with one. -/
theorem getLast?_ended {cs line : List Char} (plain : ¬ ['\r', '\n'] <:+: cs)
    (h : line ∈ (feed cs).1) : line.getLast? ≠ some '\r' := by
  intro hlast
  obtain ⟨front, rfl⟩ := List.getLast?_eq_some_iff.1 hlast
  have hline : (front ++ ['\r']) ++ ['\n'] <:+: (feed cs).1.flatMap (· ++ ['\n']) :=
    List.infix_of_mem_flatten (List.mem_map_of_mem h)
  have hpair : ['\r', '\n'] <:+: (front ++ ['\r']) ++ ['\n'] := ⟨front, [], by simp⟩
  have hwhole : (feed cs).1.flatMap (· ++ ['\n']) <:+: cs :=
    ⟨[], (feed cs).2, by rw [List.nil_append, feed_whole]⟩
  exact plain ((hpair.trans hline).trans hwhole)

theorem dropTerminator_self {line : List Char} (hfeed : '\n' ∉ line)
    (hreturn : line.getLast? ≠ some '\r') : dropTerminator line = line := by
  rw [← List.head?_reverse] at hreturn
  rw [← List.mem_reverse] at hfeed
  unfold dropTerminator
  split
  · next h => exact absurd (h ▸ List.mem_cons_self) hfeed
  · next h => exact absurd (h ▸ List.mem_cons_self) hfeed
  · next h => exact absurd (congrArg List.head? h) hreturn
  · rfl

theorem dropTerminator_return (line : List Char) : dropTerminator (line ++ ['\r']) = line := by
  simp [dropTerminator]

/-- What is left of a line is the same with a carriage return after it. -/
theorem MayReturn.dropTerminator_eq {line line' : List Char} (h : MayReturn line line')
    (hfeed : '\n' ∉ line) (hreturn : line.getLast? ≠ some '\r') :
    dropTerminator line = dropTerminator line' := by
  rw [dropTerminator_self hfeed hreturn]
  rcases h with rfl | rfl
  · exact (dropTerminator_self hfeed hreturn).symm
  · exact (dropTerminator_return line).symm

/-- Two lines that are the same without their terminators. -/
def SameLine (line line' : String) : Prop :=
  dropTerminator line.toList = dropTerminator line'.toList

/-- **The lines are the same without their terminators**, one for one, if a text without carriage
returns before line feeds gets some. -/
theorem sameLines_putReturns {text : String} (plain : ¬ ['\r', '\n'] <:+: text.toList)
    (chosen : Nat → Bool) :
    List.Forall₂ SameLine (splitLines text)
      (splitLines (String.ofList (putReturns chosen text.toList))) := by
  obtain ⟨hended, hopen⟩ := feed_putReturns chosen text.toList
  rw [splitLines, splitLines, String.toList_ofList, List.forall₂_map_left_iff,
    List.forall₂_map_right_iff]
  have hfree : ∀ line ∈ (feed text.toList).1, '\n' ∉ line ∧ line.getLast? ≠ some '\r' :=
    fun line hline => ⟨not_mem_ended hline, getLast?_ended plain hline⟩
  have hsame : List.Forall₂ (fun line line' => dropTerminator line = dropTerminator line')
      (feed text.toList).1 (feed (putReturns chosen text.toList)).1 := by
    refine List.Forall₂.imp ?_ ((List.forall₂_and_left _ _).2 ⟨hfree, hended⟩)
    rintro line line' ⟨⟨hfeed, hreturn⟩, hmay⟩
    exact hmay.dropTerminator_eq hfeed hreturn
  have hlines : List.Forall₂ (fun line line' => dropTerminator line = dropTerminator line')
      (lines text.toList) (lines (putReturns chosen text.toList)) := by
    simp only [lines, hopen]
    split
    · exact hsame
    · exact List.rel_append hsame (.cons rfl .nil)
  refine List.Forall₂.imp ?_ hlines
  intro line line' heq
  rwa [SameLine, String.toList_ofList, String.toList_ofList]

/-! ### Texts in chunks -/

/-- Chunks that carry a text: what they amount to is this text. -/
def Carries (chunks : List Chunk) (text : String) : Prop := received {} chunks = text.toList

/-- The pieces of a text carry it. -/
theorem carries_texts {pieces : List String} {text : String} (h : String.join pieces = text) :
    Carries (pieces.map .text) text := by
  rw [Carries, received_texts, h]

/-- The bytes of a text carry it, wherever they are cut. -/
theorem carries_bytes {chunks : List (List UInt8)} {text : String}
    (h : chunks.flatten = Utf8.encode text) : Carries (chunks.map .bytes) text := by
  rw [Carries, received_bytes, h, Utf8.decode_encode]

end Framewise.Text

namespace Framewise.Log

/-! ### Readers -/

/-- A reader sees a line without its terminator. -/
theorem Reader.push_congr (r : Reader) {line line' : String} (h : Text.SameLine line line') :
    r.push line = r.push line' := by
  rw [push, push, h]

theorem readRecords_congr (source : Option String) {lines lines' : List String}
    (h : List.Forall₂ Text.SameLine lines lines') :
    readRecords source lines = readRecords source lines' := by
  have hfold : ∀ p : Progress, lines.foldl Progress.step p = lines'.foldl Progress.step p := by
    induction h with
    | nil => exact fun _ => rfl
    | cons hline _ ih =>
      intro p
      rw [List.foldl_cons, List.foldl_cons, ← ih, Progress.step, Progress.step,
        p.reader.push_congr hline]
  rw [readRecords, readRecords, hfold]

/-- Loading chunks reads the lines of the text that they carry. -/
theorem load_carried (name : String) {chunks : List Text.Chunk} {text : String}
    (h : Text.Carries chunks text) :
    load name chunks = (readText (some name) text).map
      (loadedOf name text (chunks.map Text.Chunk.size).sum) := by
  have hrun : Text.LineStream.run {} chunks =
      Text.LineStream.append { bytesRead := (chunks.map Text.Chunk.size).sum } text.toList := by
    rw [Text.LineStream.run_eq, h, Nat.zero_add]
  rw [load_eq_readText hrun, String.ofList_toList]

theorem readText_congr (source : Option String) {text text' : String}
    (h : List.Forall₂ Text.SameLine (Text.splitLines text) (Text.splitLines text')) :
    readText source text' = readText source text := by
  rw [readText, readText, readRecords_congr source h]

/-- Chunks that carry texts of the same lines are loaded alike, but for the count of bytes. -/
theorem load_congr (name : String) {chunks chunks' : List Text.Chunk} {text text' : String}
    (hcarries : Text.Carries chunks text) (hcarries' : Text.Carries chunks' text')
    (h : List.Forall₂ Text.SameLine (Text.splitLines text) (Text.splitLines text')) :
    load name chunks' = (load name chunks).map fun loaded =>
      { loaded with bytesRead := (chunks'.map Text.Chunk.size).sum } := by
  have hloaded : loadedOf name text' (chunks'.map Text.Chunk.size).sum = fun records =>
      { loadedOf name text (chunks.map Text.Chunk.size).sum records with
        bytesRead := (chunks'.map Text.Chunk.size).sum } := by
    funext records
    rw [loadedOf, loadedOf, h.length_eq]
  rw [load_carried name hcarries, load_carried name hcarries', readText_congr (some name) h,
    map_map_eq, hloaded]

/-- **Line endings are invisible.** Let a text have no carriage return before a line feed, and let
`text'` be the same text with carriage returns before any of its line feeds.

* Both have the same number of lines, and these give the same records and then the same error, if
  there is one, with the same token at the same place.
* In whatever chunks they arrive, also cut between a carriage return and its line feed, they are
  loaded with the same records and the same count of lines, or fail with the same error. Only the
  bytes are those of the chunks. -/
theorem lineEndings_invisible {text : String} (plain : ¬ ['\r', '\n'] <:+: text.toList)
    (chosen : Nat → Bool) :
    let text' := String.ofList (Text.putReturns chosen text.toList)
    (Text.splitLines text').length = (Text.splitLines text).length ∧
    (∀ source, readRecords source (Text.splitLines text') =
      readRecords source (Text.splitLines text)) ∧
    (∀ source, readText source text' = readText source text) ∧
    ∀ name chunks chunks', Text.Carries chunks text → Text.Carries chunks' text' →
      load name chunks' = (load name chunks).map fun loaded =>
        { loaded with bytesRead := (chunks'.map Text.Chunk.size).sum } := by
  intro text'
  have hlines := Text.sameLines_putReturns plain chosen
  refine ⟨hlines.length_eq.symm, ?_, ?_, ?_⟩
  · intro source
    exact (readRecords_congr source hlines).symm
  · intro source
    exact readText_congr source hlines
  · intro name chunks chunks' hcarries hcarries'
    exact load_congr name hcarries hcarries' hlines

/-- The first and the last line of three get a carriage return, and the bytes arrive cut between the
first one and its line feed. -/
theorem lineEndings_invisible_cut :
    let text := "Stats Viewer : n 1\n    Draw 7\nStats Viewer : n 2\n"
    let text' := String.ofList (Text.putReturns (· ≠ 1) text.toList)
    let start := Text.Utf8.encode "Stats Viewer : n 1\r"
    let rest := Text.Utf8.encode "\n    Draw 7\nStats Viewer : n 2\r\n"
    ¬ ['\r', '\n'] <:+: text.toList ∧
    Text.Carries [.text text] text ∧ Text.Carries [.bytes start, .bytes rest] text' ∧
    load "a.log" [.bytes start, .bytes rest] =
      .ok ⟨"a.log", [.ofList [("n", 1), ("Draw", 7)]], start.length + rest.length, 3⟩ := by
  intro text text' start rest
  have plain : ¬ ['\r', '\n'] <:+: text.toList := by decide +kernel
  have hcarries : Text.Carries [.text text] text := by
    have hjoin : String.join [text] = text := by simp
    exact Text.carries_texts hjoin
  have hcarries' : Text.Carries [.bytes start, .bytes rest] text' := by
    have htext : text' =
        "Stats Viewer : n 1\r" ++ "\n    Draw 7\nStats Viewer : n 2\r\n" := by decide +kernel
    have hbytes : [start, rest].flatten = Text.Utf8.encode text' := by
      rw [htext, Text.Utf8.encode_append]
      simp [start, rest]
    exact Text.carries_bytes hbytes
  have hload : load "a.log" [.text text] =
      .ok ⟨"a.log", [.ofList [("n", 1), ("Draw", 7)]], 49, 3⟩ := by decide +kernel
  refine ⟨plain, hcarries, hcarries', ?_⟩
  rw [(lineEndings_invisible plain _).2.2.2 "a.log" _ _ hcarries hcarries', hload]
  rfl

end Framewise.Log
